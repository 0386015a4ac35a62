import EvoHarness.Core.Proposer

/-! What a session proposal owns: its event sink, the session of the backend, the directory it works
in. Every step outside the program may fail, and all that was done outside is written down. -/
namespace EvoHarness.Core.ProposalResources
open PyText Hoare Agent

inductive ResourceStep where
  | openSink
  | makeDirectory
  | materialize
  | recordPreflight
  | release (sessionId : Text)
  | flush
  | finalize
  | close
  | removeDirectory
deriving DecidableEq

structure Taken where
  step : ResourceStep
  succeeded : Bool
deriving DecidableEq

inductive Escaped where
  | billing (error : Text)
  | other (described : Text)

def Escaped.fault : Escaped → SessionFault
  | .billing error => .billing error
  | .other described => .other described

structure SessionResult where
  termination : AgentTermination
  sessionId : Option Text := none
  finalMessage : Text := []
  model : Option Text := some []
  costUsd : ℚ≥0 := 0
  turns : ℕ := 0
  toolCalls : ℕ := 0
  promptTokens : ℕ := 0
  completionTokens : ℕ := 0
  session_named : ∀ id, sessionId = some id → isBlank id = false

inductive RunAnswer where
  | raised (error : Escaped)
  | malformed
  | result (r : SessionResult)

/-- The outside of one repair round: the sessions that the backend opens in its run, what the run came
to, and what the check of the workspace and the making of the proposal came to. -/
structure RunReply where
  elapsed : ℚ≥0 := 0
  opened : List Text := []
  answer : RunAnswer
  preflight : PreflightAnswer
  proposing : Option Escaped := none

inductive OpenedSink where
  | unmanaged
  | managed (tracePath : Option Text)

/-- The outside of a proposal. Whether a step succeeds may depend on all that was done before. -/
structure ProposalOutside where
  proposalId : Option Text
  succeeds : List Taken → ResourceStep → Bool
  sink : OpenedSink := .managed none
  returnsDestination : Bool := true
  isDirectory : Bool := true
  round : ℕ → RunReply
  patch : Option Text
  capturing : Option Escaped := none
  summarising : Option Escaped := none

structure World where
  sink : Bool := false
  workdir : Bool := false
  sessionId : Option Text := none
  tracePath : Option Text := none
  temporaryDirectory : Bool := false
  releaseAttempted : Bool := false
  flushAttempted : Bool := false
  usage : ProposalUsage := {}
  /-- The steps taken, the runs of the backend, and the directory on the disk. -/
  taken : List Taken := []
  runs : ℕ := 0
  directory : Bool := false

structure SessionProposer where
  limits : AgentSessionLimits
  maxRepairRounds : ℕ := 3
  unenforceableLimits : List Text := []

/-- Code that raises nothing but `_ProposalResourceError`, with its code. -/
abbrev Step (α : Type) : Type := Prog World Text α

abbrev Session (α : Type) : Type := Prog World SessionFault α

def owned {α : Type} (m : Step α) : Session α := Prog.mapError SessionFault.resource m

section
variable (p : SessionProposer) (rd : Reading) (out : ProposalOutside)

def take (step : ResourceStep) (code : Text) : Step Unit := do
  let succeeded ← Prog.call fun w =>
    (out.succeeds w.taken step, { w with taken := w.taken ++ [⟨step, out.succeeds w.taken step⟩] })
  if succeeded = true then pure () else Prog.raise code

def bindSession (sessionId : Option Text) : Step Unit := do
  let w ← Prog.get
  match sessionId with
  | none => pure ()
  | some new =>
    if isBlank new = true then Prog.raise "backend-session-error".toList
    else
      match w.sessionId with
      | none => Prog.modify fun w => { w with sessionId := some new }
      | some id => if id = new then pure () else Prog.raise "backend-session-error".toList

def recordPreflight : Step Unit := do
  let w ← Prog.get
  if w.sink = false then Prog.raise "sink-preflight-error".toList
  else take out .recordPreflight "sink-preflight-error".toList

def finalize : Step Unit := do
  let w ← Prog.get
  if w.sink = false then Prog.raise "sink-finalize-error".toList
  else take out .finalize "sink-finalize-error".toList

def releaseSession : Step Unit := do
  let w ← Prog.get
  match w.sessionId, w.releaseAttempted with
  | some id, false =>
    Prog.modify fun w => { w with releaseAttempted := true }
    take out (.release id) "backend-release-error".toList
  | _, _ => pure ()

def flushSink : Step Unit := do
  let w ← Prog.get
  if w.sink = false ∨ w.flushAttempted = true then pure ()
  else
    Prog.modify fun w => { w with flushAttempted := true }
    take out .flush "sink-flush-error".toList

def badTracePath (tracePath : Option Text) : Bool := tracePath.any isBlank

def openSink : Step Unit := do
  take out .openSink "sink-open-error".toList
  match out.sink with
  | .unmanaged => Prog.raise "sink-open-error".toList
  | .managed tracePath =>
    if badTracePath tracePath = true then
      -- `finally: raise` hides an error of the close
      let _ ← Prog.attempt (take out .close "sink-close-error".toList)
      Prog.raise "sink-open-error".toList
    else Prog.modify fun w => { w with sink := true, tracePath := tracePath }

def materializeWorkspace : Step Unit := do
  take out .makeDirectory "workspace-materialize-error".toList
  Prog.modify fun w => { w with temporaryDirectory := true, directory := true }
  take out .materialize "workspace-materialize-error".toList
  if out.returnsDestination = false then Prog.raise "workspace-materialize-error".toList
  else if out.isDirectory = false then Prog.raise "workspace-materialize-error".toList
  else Prog.modify fun w => { w with workdir := true }

def keepingFirst (first : Option Text) (m : Step Unit) : Step (Option Text) := do
  match ← Prog.attempt m with
  | .error code => pure (first <|> some code)
  | .ok _ => pure first

def closeSink : Step Unit := do
  Prog.modify fun w => { w with sink := false }
  take out .close "sink-close-error".toList

def removeDirectory : Step Unit := do
  Prog.modify fun w => { w with temporaryDirectory := false }
  take out .removeDirectory "workspace-cleanup-error".toList
  Prog.modify fun w => { w with directory := false }

def onlyIf (c : World → Bool) (m : Step Unit) : Step Unit := do
  let w ← Prog.get
  if c w = true then m else pure ()

def cleanup : Step (Option Text) := do
  let flushed ← keepingFirst none (onlyIf (fun w => w.sink && !w.flushAttempted) (flushSink out))
  let released ← keepingFirst flushed
    (onlyIf (fun w => w.sessionId.isSome && !w.releaseAttempted) (releaseSession out))
  let closed ← keepingFirst released (onlyIf (·.sink) (closeSink out))
  Prog.modify fun w => { w with workdir := false }
  keepingFirst closed (onlyIf (·.temporaryDirectory) (removeDirectory out))

def enter : Step Unit := do
  openSink out
  match ← Prog.attempt (materializeWorkspace out) with
  | .ok _ => pure ()
  | .error code =>
    let _ ← cleanup out
    Prog.raise code

/-- `with resources: …`. An error of the cleaning up never hides what the body raised. -/
def withResources {α : Type} (body : Session α) : Session α := do
  owned (enter out)
  let ended ← Prog.attempt body
  let cleanupError ← owned (cleanup out)
  match ended, cleanupError with
  | .error e, _ => Prog.raise e
  | .ok _, some code => Prog.raise (.resource code)
  | .ok a, none => pure a

def mayEscape (error : Option Escaped) : Session Unit :=
  match error with
  | none => pure ()
  | some e => Prog.raise e.fault

def SessionResult.addTo (r : SessionResult) (u : ProposalUsage) : ProposalUsage :=
  ⟨u.attempts + 1, u.turns + r.turns, u.toolCalls + r.toolCalls, u.costUsd + r.costUsd,
    u.promptTokens + r.promptTokens, u.completionTokens + r.completionTokens⟩

def SessionProposer.overruns (limits : AgentSessionLimits) (r : SessionResult) : Bool :=
  decide (limits.maxTurns < r.turns) && !p.unenforceableLimits.contains "max_turns".toList ||
    decide (limits.maxToolCalls < r.toolCalls) && !p.unenforceableLimits.contains "max_tool_calls".toList

/-- `usage.absorb`: take the run onto the books, then judge it. -/
def absorb (limits : AgentSessionLimits) (answer : RunAnswer) : Session SessionResult :=
  match answer with
  | .result r => do
    Prog.modify fun w => { w with usage := r.addTo w.usage }
    if p.overruns limits r = true then Prog.raise (.loop "backend-error".toList) else pure r
  | _ => Prog.raise (.loop "backend-error".toList)

def backendRun (round : ℕ) : Session RunAnswer := do
  Prog.modify fun w => { w with runs := w.runs + 1 }
  match (out.round round).answer with
  | .raised (.billing error) => Prog.raise (.billing error)
  | .raised (.other _) => Prog.raise (.loop "backend-error".toList)
  | answer => pure answer

theorem refused_iff (reason : Text) : (some reason).isSome = (none : Option Proposal).isNone := rfl

theorem proposed_iff (proposal : Proposal) : (none : Option Text).isSome = (some proposal).isNone := rfl

def failure (reason : Text) : Session ProposeResult := do
  let w ← Prog.get
  pure ⟨none, w.usage.costUsd, w.usage.attempts, some reason, w.tracePath, refused_iff reason⟩

def success (round : ℕ) (result : SessionResult) (child : Workspace) : Session ProposeResult := do
  mayEscape (out.round round).proposing
  let w ← Prog.get
  let header := rd.parseChangeHeader result.finalMessage
  pure ⟨some ⟨rd.mainText child, header.1, header.2, result.model.getD [], some child⟩, w.usage.costUsd,
    w.usage.attempts, none, w.tracePath, proposed_iff _⟩

def askPreflight (answer : PreflightAnswer) : Session (Option Workspace × List PreflightIssue) :=
  match answer with
  | .raised _ => Prog.raise (.loop "preflight-error".toList)
  | .checked child issues => pure (child, issues)

/-- What a round comes to once its check is on record: an outcome, or another round. -/
def judgeRound (round : ℕ) (result : SessionResult) (checked : Option Workspace × List PreflightIssue) :
    Session (Option ProposeResult) := do
  let w ← Prog.get
  match checked.1 with
  | some child => some <$> success rd out round result child
  | none =>
    if AgentSessionProposer.repairable checked.2 = false then some <$> failure "nonrepairable-preflight".toList
    else if result.termination ≠ .completed then
      some <$> failure (AgentSessionProposer.terminationValue result.termination)
    else if p.maxRepairRounds ≤ round then some <$> failure "repair-limit".toList
    else if w.sessionId = none then some <$> failure "backend-session-error".toList
    else pure none

def checkRound (round : ℕ) (result : SessionResult) : Session (Option ProposeResult) :=
  if result.termination = .backendError then some <$> failure "backend-error".toList
  else do
    let checked ← askPreflight (out.round round).preflight
    owned (recordPreflight out)
    judgeRound p rd out round result checked

def limitsLeft (elapsed : ℚ≥0) : Session AgentSessionLimits := do
  let w ← Prog.get
  match w.usage.remainingLimits p.limits elapsed with
  | .ok limits => pure limits
  | .error e => Prog.raise e

def repairRound (round : ℕ) : Session (Option ProposeResult) := do
  let limits ← limitsLeft p (out.round round).elapsed
  let answer ← backendRun out round
  let result ← absorb p limits answer
  owned (bindSession result.sessionId)
  checkRound p rd out round result

/-- `_run_loop`, from a repair round on, with the rounds that are left. -/
def rounds : ℕ → ℕ → Session ProposeResult
  | 0, _ => Prog.raise (.loop "proposer-error".toList)
  | left + 1, round => do
    match ← repairRound p rd out round with
    | some outcome => pure outcome
    | none => rounds left (round + 1)

def runLoop : Session ProposeResult := do
  let w ← Prog.get
  if w.workdir = false ∨ w.sink = false then Prog.raise (.loop "resource-error".toList)
  else rounds p rd out (p.maxRepairRounds + 1) 0

def onFault : SessionFault → Option (Session ProposeResult)
  | .billing _ => none
  | .loop code => some (failure code)
  | .resource code => some (failure code)
  | .other _ => some (failure "proposer-error".toList)

def captureRun : Session ProposeResult := Prog.rescue (runLoop p rd out) onFault

def settleStep (action : Step Unit) (outcome : ProposeResult) : Session ProposeResult :=
  Prog.rescue (owned action >>= fun _ => pure outcome) fun
    | .resource code => some (failure code)
    | _ => none

def settleResources (outcome : ProposeResult) : Session ProposeResult := do
  let released ← settleStep (releaseSession out) outcome
  settleStep (flushSink out) released

/-- The patch of a proposal has to render, and to hold something. A failed proposal has a patch if its
directory can be read. -/
def renderPatch (outcome : ProposeResult) : Session ProposeResult := do
  let w ← Prog.get
  if outcome.proposal.isSome = true then
    if (out.patch.getD []).isEmpty = true then failure "final-patch-error".toList else pure outcome
  else if w.workdir = true then do
    mayEscape out.capturing
    pure outcome
  else pure outcome

def finalizeTranscript (outcome : ProposeResult) : Session ProposeResult := do
  let final ← renderPatch out outcome
  mayEscape out.summarising
  owned (finalize out)
  pure final

def body : Session ProposeResult := do
  let outcome ← captureRun p rd out
  let settled ← settleResources out outcome
  finalizeTranscript out settled

def isProposalId : Text → Bool
  | [] => false
  | c :: id => c.isAlphanum && decide (id.length ≤ 127) &&
    id.all fun d => d.isAlphanum || d == '.' || d == '_' || d == '-'

def session : Session ProposeResult :=
  if out.proposalId.any isProposalId = true then
    Prog.rescue (withResources out (body p rd out)) onFault
  else failure "proposal-id-error".toList

def propose (operator system user : Text) : Except RunFault ProposeResult × World :=
  if isBlank operator = true then (.error (.other "ValueError: operator must be non-empty".toList), {})
  else if isBlank system = true then (.error (.other "ValueError: system prompt must be non-empty".toList), {})
  else if isBlank user = true then (.error (.other "ValueError: user prompt must be non-empty".toList), {})
  else
    let ended := session p rd out {}
    (ended.1.mapError AgentSessionProposer.leaves, ended.2)

end
end EvoHarness.Core.ProposalResources
