import EvoHarness.Core.Agent.Heard

/-! The proposers: single calls with blind resampling, and agent sessions over the native backend,
bare or behind the text-completion adapter. Next to what a proposal returns stands what the client
answered to it. -/
namespace EvoHarness.Core
open PyText Hoare Agent

structure Workspace where
  kind : Text
  code : Text

structure Proposal where
  code : Text
  title : Text
  summary : Text
  model : Text
  workspace : Option Workspace := none

structure ProposeResult where
  proposal : Option Proposal
  llmCost : ℚ≥0 := 0
  attempts : ℕ := 0
  failureReason : Option Text := none
  tracePath : Option Text := none
  reason_iff : failureReason.isSome = proposal.isNone

inductive RunFault where
  | billing (error : Text)
  | evalInfra (error : Text)
  | other (described : Text)

/-- What a call of `propose` came to, and what its calls of the client did. -/
structure Proposed where
  result : Except RunFault ProposeResult
  heard : List ClientCall

def Proposed.after (p : Proposed) (call : ClientCall) : Proposed := { p with heard := call :: p.heard }

structure Reading where
  mainText : Workspace → Text
  texts : Workspace → List (Text × Text)
  withFiles : Workspace → List (Text × Text) → Option Workspace
  parseChangeHeader : Text → Text × Text
  parseFileBlocks : Text → List (Text × Text)
  applyPatch : Text → Text → Option Text
  applyRewrite : Text → Text → Option Text

/-- What `llm.query` does. Protocol and transport errors are `RuntimeError`s too. -/
inductive QueryAnswer where
  | completion (text : Text) (cost : ℚ≥0)
  | billing (error : Text)
  | runtimeError (error : Text)
  | other (described : Text)

/-- The outside of one attempt: the time since the start, the model that was picked, what the client
does, and an exception of the code that reads the completion. -/
structure AttemptReply where
  elapsed : ℚ≥0 := 0
  model : Text := []
  answer : QueryAnswer
  raised : Option Text := none

structure SingleShotProposer where
  maxResamples : ℕ := 3
  deadlineS : ℚ≥0 := 900

def mutate (rd : Reading) (operator : Text) (parent : Workspace) (model answer : Text) : Option Proposal :=
  let header := rd.parseChangeHeader answer
  let edits := rd.parseFileBlocks answer
  if edits ≠ [] then
    match rd.withFiles parent edits with
    | none => none
    | some child =>
      if rd.texts child = rd.texts parent then none
      else some ⟨rd.mainText child, header.1, header.2, model, some child⟩
  else
    let outcome := if operator = "revise".toList then rd.applyPatch (rd.mainText parent) answer
      else rd.applyRewrite (rd.mainText parent) answer
    outcome.map fun code => ⟨code, header.1, header.2, model, none⟩

namespace SingleShotProposer
variable (p : SingleShotProposer) (rd : Reading) (env : ℕ → AttemptReply)

def exhausted (cost : ℚ≥0) : Proposed :=
  ⟨.ok ⟨none, cost, p.maxResamples, some "resample-exhausted".toList, none, rfl⟩, []⟩

/-- The attempts from `attempt` on, `left` of them. Every `RuntimeError` of the client goes on to the
next attempt. -/
def attemptFrom (operator : Text) (parent : Workspace) : ℕ → ℕ → ℚ≥0 → Proposed
  | 0, _, cost => p.exhausted cost
  | left + 1, attempt, cost =>
    let r := env attempt
    if 1 < attempt ∧ p.deadlineS < r.elapsed then p.exhausted cost
    else
      match r.answer with
      | .runtimeError _ => (attemptFrom operator parent left (attempt + 1) cost).after .failed
      | .billing error => (attemptFrom operator parent left (attempt + 1) cost).after (.billing error)
      | .other described => ⟨.error (.other described), [.failed]⟩
      | .completion text c =>
        match r.raised with
        | some described => ⟨.error (.other described), [.paid c]⟩
        | none =>
          match mutate rd operator parent r.model text with
          | none => (attemptFrom operator parent left (attempt + 1) (cost + c)).after (.paid c)
          | some proposal => ⟨.ok ⟨some proposal, cost + c, attempt, none, none, rfl⟩, [.paid c]⟩

def propose (operator : Text) (parent : Workspace) : Proposed :=
  p.attemptFrom rd env operator parent p.maxResamples 1 0

end SingleShotProposer

/-- Exceptions inside a session proposal. `loop` and `resource` carry the code of their failure. -/
inductive SessionFault where
  | loop (code : Text)
  | resource (code : Text)
  | billing (error : Text)
  | other (described : Text)

structure ProposalUsage where
  attempts : ℕ := 0
  turns : ℕ := 0
  toolCalls : ℕ := 0
  costUsd : ℚ≥0 := 0
  promptTokens : ℕ := 0
  completionTokens : ℕ := 0

def ProposalUsage.add (u : ProposalUsage) (r : AgentSessionResult) : ProposalUsage :=
  ⟨u.attempts + 1, u.turns + r.turns, u.toolCalls + r.toolCalls, u.costUsd + r.costUsd,
    u.promptTokens + r.promptTokens, u.completionTokens + r.completionTokens⟩

def costLeft (total : Option ℚ≥0) (spent : ℚ≥0) : Except SessionFault (Option ℚ≥0) :=
  match total with
  | none => .ok none
  | some m => if m ≤ spent then .error (.loop "cost-limit".toList) else .ok (some (m - spent))

def tokensLeft (total : Option ℕ) (spent : ℕ) : Except SessionFault {m : Option ℕ // ∀ k, m = some k → 1 ≤ k} :=
  match total with
  | none => .ok ⟨none, fun _ h => nomatch h⟩
  | some m =>
    if h : m ≤ spent then .error (.loop "token-limit".toList)
    else .ok ⟨some (m - spent), fun k hk => by cases hk; omega⟩

def ProposalUsage.remainingLimits (u : ProposalUsage) (total : AgentSessionLimits) (elapsed : ℚ≥0) :
    Except SessionFault AgentSessionLimits := do
  if htime : total.timeoutS ≤ elapsed then .error (.loop "timeout".toList)
  else if hturns : total.maxTurns ≤ u.turns then .error (.loop "turn-limit".toList)
  else if total.maxToolCalls < u.toolCalls then .error (.loop "tool-limit".toList)
  else
    let cost ← costLeft total.maxCostUsd u.costUsd
    let tokens ← tokensLeft total.maxTokens (u.promptTokens + u.completionTokens)
    .ok { maxTurns := total.maxTurns - u.turns, maxToolCalls := total.maxToolCalls - u.toolCalls
          timeoutS := total.timeoutS - elapsed, maxCostUsd := cost, maxTokens := tokens.1
          one_le_turns := by omega
          timeout_pos := tsub_pos_of_lt (not_le.mp htime)
          tokens_pos := tokens.2 }

/-- What `preflight.check` does. The child is there when the check has no issues. -/
inductive PreflightAnswer where
  | raised (described : Text)
  | checked (child : Option Workspace) (issues : List PreflightIssue)

/-- The outside of one repair round. `others` are the sessions that siblings have on the same backend,
and `completionError` is an exception of the adapter that applies a final text. -/
structure RoundReply where
  elapsed : ℚ≥0 := 0
  others : List SessionState := []
  completionError : Option Text := none
  preflight : PreflightAnswer
  recordFails : Bool := false

/-- The outside of one session proposal. The codes are those of the exceptions that opening and
cleaning up the resources raise. -/
structure SessionOutside where
  host : Host := {}
  replies : ℕ → Reply
  idFails : Bool := false
  openError : Option Text := none
  tracePath : Option Text := none
  workdir : Text := []
  rounds : ℕ → RoundReply
  releaseFails : Bool := false
  flushFails : Bool := false
  hasPatch : Bool := true
  finalizeFails : Bool := false
  cleanupError : Option Text := none

inductive AgentBackend where
  | native (b : NativeToolAgentBackend)
  | conversational (b : NativeToolAgentBackend)

def AgentBackend.runtime : AgentBackend → NativeToolAgentBackend
  | .native b => b
  | .conversational b => b

structure AgentSessionProposer where
  backend : AgentBackend
  limits : AgentSessionLimits
  maxRepairRounds : ℕ := 3
  budgetNote : Text := []

structure SessionWorld where
  host : Host
  usage : ProposalUsage := {}
  sessionId : Option Text := none
  heard : List ClientCall := []

namespace AgentSessionProposer
variable (p : AgentSessionProposer) (rd : Reading) (out : SessionOutside)

def fuel (limits : AgentSessionLimits) : ℕ := limits.maxTurns + maxToolCallRecoveries + 1

def toRaise : Fault → SessionFault
  | .billing error => .billing error
  | _ => .loop "backend-error".toList

/-- `self.backend.run(request)`; what it raises, but for an empty account, is a backend error. -/
def nativeRun (others : List SessionState) (request : AgentSessionRequest) :
    Prog SessionWorld SessionFault (Option AgentSessionResult) := fun w =>
  let host := { w.host with sessions := w.host.sessions ++ others }
  let ended := host.run p.backend.runtime out.replies request (fuel request.limits)
  (ended.1.mapError toRaise,
    { w with host := ended.2, heard := w.heard ++ host.heard p.backend.runtime out.replies request (fuel request.limits) })

/-- The adapter applies a final text that is not blank, and lets its own kinds of error pass. -/
def applyCompletion (r : RoundReply) (result : Option AgentSessionResult) :
    Prog SessionWorld SessionFault (Option AgentSessionResult) :=
  match p.backend, result, r.completionError with
  | .conversational _, some ended, some _ =>
    if isBlank ended.finalMessage = true then pure result else Prog.raise (.loop "backend-error".toList)
  | _, _, _ => pure result

def backendRun (r : RoundReply) (request : AgentSessionRequest) :
    Prog SessionWorld SessionFault (Option AgentSessionResult) := do
  let result ← p.nativeRun out r.others request
  p.applyCompletion r result

def ofExcept {α : Type} : Except SessionFault α → Prog SessionWorld SessionFault α
  | .ok a => pure a
  | .error e => Prog.raise e

/-- `usage.absorb`: take the run onto the books, then judge it. -/
def absorbRun (limits : AgentSessionLimits) (result : Option AgentSessionResult) :
    Prog SessionWorld SessionFault AgentSessionResult :=
  match result with
  | none => Prog.raise (.loop "backend-error".toList)
  | some r => do
    Prog.modify fun w => { w with usage := w.usage.add r }
    if limits.maxTurns < r.turns ∨ limits.maxToolCalls < r.toolCalls then Prog.raise (.loop "backend-error".toList)
    else pure r

def bindSession (sessionId : Text) : Prog SessionWorld SessionFault Unit := do
  let w ← Prog.get
  if isBlank sessionId = true then Prog.raise (.resource "backend-session-error".toList)
  else
    match w.sessionId with
    | none => Prog.modify fun w => { w with sessionId := some sessionId }
    | some id => if id = sessionId then pure () else Prog.raise (.resource "backend-session-error".toList)

def failure (reason : Text) : Prog SessionWorld SessionFault ProposeResult := do
  let w ← Prog.get
  pure ⟨none, w.usage.costUsd, w.usage.attempts, some reason, out.tracePath, rfl⟩

def success (result : AgentSessionResult) (child : Workspace) : Prog SessionWorld SessionFault ProposeResult := do
  let w ← Prog.get
  let header := rd.parseChangeHeader result.finalMessage
  pure ⟨some ⟨rd.mainText child, header.1, header.2, result.model, some child⟩, w.usage.costUsd, w.usage.attempts,
    none, out.tracePath, rfl⟩

def terminationValue : AgentTermination → Text
  | .completed => "completed".toList
  | .timeout => "timeout".toList
  | .turnLimit => "turn_limit".toList
  | .toolLimit => "tool_limit".toList
  | .costLimit => "cost_limit".toList
  | .contextLimit => "context_limit".toList
  | .outputLimit => "output_limit".toList
  | .refusal => "refusal".toList
  | .contentFilter => "content_filter".toList
  | .protocolError => "protocol_error".toList
  | .backendError => "backend_error".toList

def repairable (issues : List PreflightIssue) : Bool := !issues.isEmpty && issues.all (·.repairable)

def askPreflight (answer : PreflightAnswer) : Prog SessionWorld SessionFault (Option Workspace × List PreflightIssue) :=
  match answer with
  | .raised _ => Prog.raise (.loop "preflight-error".toList)
  | .checked child issues => pure (child, issues)

def recordPreflight (fails : Bool) : Prog SessionWorld SessionFault Unit :=
  if fails = true then Prog.raise (.resource "sink-preflight-error".toList) else pure ()

/-- What a round comes to once its check is on record: an outcome, or the issues to send back. -/
def judgeRound (round : ℕ) (result : AgentSessionResult) (child : Option Workspace) (issues : List PreflightIssue) :
    Prog SessionWorld SessionFault (ProposeResult ⊕ List PreflightIssue) := do
  let w ← Prog.get
  match child with
  | some child => Sum.inl <$> success rd out result child
  | none =>
    if repairable issues = false then Sum.inl <$> failure out "nonrepairable-preflight".toList
    else if result.termination ≠ .completed then Sum.inl <$> failure out (terminationValue result.termination)
    else if p.maxRepairRounds ≤ round then Sum.inl <$> failure out "repair-limit".toList
    else if w.sessionId = none then Sum.inl <$> failure out "backend-session-error".toList
    else pure (.inr issues)

def checkRound (round : ℕ) (r : RoundReply) (result : AgentSessionResult) :
    Prog SessionWorld SessionFault (ProposeResult ⊕ List PreflightIssue) :=
  if result.termination = .backendError then Sum.inl <$> failure out "backend-error".toList
  else do
    let checked ← askPreflight r.preflight
    recordPreflight r.recordFails
    p.judgeRound rd out round result checked.1 checked.2

def repairRound (operator system user : Text) (parentId : Text) (round : ℕ) (feedback : List PreflightIssue) :
    Prog SessionWorld SessionFault (ProposeResult ⊕ List PreflightIssue) := do
  let w ← Prog.get
  let r := out.rounds round
  let limits ← ofExcept (w.usage.remainingLimits p.limits r.elapsed)
  let ended ← p.backendRun out r
    { system := system, user := user, parentId := parentId, operator := operator, workdir := out.workdir
      limits := limits, hasSink := true, sessionId := w.sessionId, feedback := feedback }
  let result ← absorbRun limits ended
  bindSession result.sessionId
  p.checkRound rd out round r result

/-- `_run_loop`, from a repair round on, with the rounds that are left. -/
def runLoop (operator system user parentId : Text) : ℕ → ℕ → List PreflightIssue →
    Prog SessionWorld SessionFault ProposeResult
  | 0, _, _ => Prog.raise (.loop "proposer-error".toList)
  | left + 1, round, feedback => do
    let judged ← p.repairRound rd out operator system user parentId round feedback
    match judged with
    | .inl outcome => pure outcome
    | .inr issues => runLoop operator system user parentId left (round + 1) issues

def onFault : SessionFault → Option (Prog SessionWorld SessionFault ProposeResult)
  | .billing _ => none
  | .loop code => some (failure out code)
  | .resource code => some (failure out code)
  | .other _ => some (failure out "proposer-error".toList)

def captureRun (operator system user parentId : Text) : Prog SessionWorld SessionFault ProposeResult :=
  Prog.rescue (p.runLoop rd out operator system user parentId (p.maxRepairRounds + 1) 0 []) (onFault out)

def settleResources (outcome : ProposeResult) : Prog SessionWorld SessionFault ProposeResult := do
  let w ← Prog.get
  if out.flushFails = true then failure out "sink-flush-error".toList
  else if w.sessionId ≠ none ∧ out.releaseFails = true then failure out "backend-release-error".toList
  else pure outcome

def finalizeTranscript (outcome : ProposeResult) : Prog SessionWorld SessionFault ProposeResult := do
  let failed ← failure out "final-patch-error".toList
  if out.finalizeFails = true then Prog.raise (.resource "sink-finalize-error".toList)
  else if outcome.proposal.isSome = true ∧ out.hasPatch = false then pure failed
  else pure outcome

def raiseIf (error : Option Text) : Prog SessionWorld SessionFault Unit :=
  match error with
  | some code => Prog.raise (.resource code)
  | none => pure ()

/-- The body of the `with`. An error of cleaning up never hides what the body raised. -/
def withResources (operator system user parentId : Text) : Prog SessionWorld SessionFault ProposeResult := do
  raiseIf out.openError
  let outcome ← p.captureRun rd out operator system user parentId
  let settled ← settleResources out outcome
  let final ← finalizeTranscript out settled
  raiseIf out.cleanupError
  pure final

def session (operator system user parentId : Text) : Prog SessionWorld SessionFault ProposeResult :=
  if out.idFails = true then pure ⟨none, 0, 0, some "proposal-id-error".toList, none, rfl⟩
  else Prog.rescue (p.withResources rd out operator (system ++ p.budgetNote) user parentId) (onFault out)

def leaves : SessionFault → RunFault
  | .billing error => .billing error
  | .loop code => .other code
  | .resource code => .other code
  | .other described => .other described

def propose (operator system user parentId : Text) : Proposed :=
  if isBlank operator = true then ⟨.error (.other "ValueError: operator must be non-empty".toList), []⟩
  else if isBlank system = true then ⟨.error (.other "ValueError: system prompt must be non-empty".toList), []⟩
  else if isBlank user = true then ⟨.error (.other "ValueError: user prompt must be non-empty".toList), []⟩
  else
    let ended := p.session rd out operator system user parentId { host := out.host }
    ⟨ended.1.mapError leaves, ended.2.heard⟩

end AgentSessionProposer
end EvoHarness.Core
