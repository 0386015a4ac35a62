import EvoHarness.Library.Hoare
import EvoHarness.Core.Agent.Messages

/-! The native agent runtime: sessions, their runs, and every exit of a turn. What the clock, the
model, the tools, the estimator and the event sink answer is read from a sequence of replies. -/
namespace EvoHarness.Core.Agent
open PyText Hoare

def maxTokensContinuation : Text :=
  "Continue exactly where the previous response stopped. Do not repeat completed content.".toList

def malformedToolCallRetry (error : Text) : Text :=
  "Your last tool call could not be parsed and was discarded: ".toList ++ error ++
  (". The `arguments` field must be a single valid JSON object encoded as a " ++
  "string, with every control character escaped -- a literal newline, tab or " ++
  "carriage return inside a JSON string value is invalid and must be written " ++
  "as \\n, \\t or \\r. Reissue the call with well-formed arguments. If the " ++
  "payload is a large multi-line file, write it with a shell tool instead of " ++
  "embedding it in the arguments.").toList

def maxToolCallRecoveries : ℕ := 3

/-- Exceptions. `other` is one of the code outside, with its type and its text. -/
inductive Fault where
  | value (message : Text)
  | runtime (message : Text)
  | billing (message : Text)
  | other (described : Text)

def Fault.describe : Fault → Text
  | .value m => "ValueError: ".toList ++ m
  | .runtime m => "RuntimeError: ".toList ++ m
  | .billing m => "LLMBillingError: ".toList ++ m
  | .other d => d

inductive Answer where
  | response (r : LLMResponse)
  | malformed (error : Text)
  | protocolError (error : Text)
  | transient (error : Text)
  | billing (error : Text)
  | other (described : Text)

/-- One answer of the outside, with a value for every question it may be asked. `elapsed` is the
time since the last reading of the clock, `wait` how long a call stays in the queue of the pool. -/
structure Reply where
  elapsed : ℚ≥0 := 0
  isDir : Bool := true
  freshId : Text := []
  estimate : Except Fault ℤ := .ok 0
  answer : Answer := .other []
  emitError : Option Text := none
  contextError : Option Text := none
  submitError : Option Text := none
  safe : Bool := false
  wait : ℚ≥0 := 0
  tool : ToolAnswer := .notResult

structure UsageSnapshot where
  turns : ℕ
  toolCalls : ℕ
  costUsd : ℚ≥0
  promptTokens : ℕ
  completionTokens : ℕ

def UsageSnapshot.deltaFrom (now earlier : UsageSnapshot) : Except Fault UsageSnapshot :=
  if now.turns < earlier.turns ∨ now.toolCalls < earlier.toolCalls ∨ now.costUsd < earlier.costUsd ∨
      now.promptTokens < earlier.promptTokens ∨ now.completionTokens < earlier.completionTokens then
    .error (.runtime "session lifetime accounting moved backwards".toList)
  else
    .ok ⟨now.turns - earlier.turns, now.toolCalls - earlier.toolCalls, now.costUsd - earlier.costUsd,
      now.promptTokens - earlier.promptTokens, now.completionTokens - earlier.completionTokens⟩

/-- `versions` are the conversations the session has had, the latest first, each with whether
compaction made it. The runtime does not read them. -/
structure SessionState where
  sessionId : Text
  messages : List LLMMessage
  workdir : Text
  parentId : Text
  operator : Text
  model : Text
  toolNames : List Text
  lifetimeTurns : ℕ := 0
  lifetimeToolCalls : ℕ := 0
  lifetimeCostUsd : ℚ≥0 := 0
  lifetimePromptTokens : ℕ := 0
  lifetimeCompletionTokens : ℕ := 0
  outputRecoveries : ℕ := 0
  roundIndex : ℕ := 0
  nextEventSequence : ℕ := 0
  versions : List (Bool × List LLMMessage) := [(false, messages)]

def SessionState.usageSnapshot (s : SessionState) : UsageSnapshot :=
  ⟨s.lifetimeTurns, s.lifetimeToolCalls, s.lifetimeCostUsd, s.lifetimePromptTokens, s.lifetimeCompletionTokens⟩

def SessionState.withMessages (s : SessionState) (compacting : Bool) (messages : List LLMMessage) : SessionState :=
  { s with messages := messages, versions := (compacting, messages) :: s.versions }

structure RunState where
  deadline : ℚ≥0
  usageBefore : UsageSnapshot
  events : List AgentEvent := []
  hasSink : Bool
  recoveries : ℕ := 0
  toolCallRecoveries : ℕ := 0
  sinkError : Option Text := none

/-- What a run did towards the outside and what it heard, with the time on the clock. `pooled` is a
call handed to the thread pool, with its place in its group and how long it waited there. -/
inductive Happening where
  | query (time : ℚ≥0)
  | answered (response : LLMResponse)
  | pooled (place : ℕ) (time wait : ℚ≥0)
  | alone (time : ℚ≥0)
  | schedulerRaised (started : ℕ)

/-- `asked` counts the replies used up, `now` is the last reading of the clock, and `log` is what
the run has done, the latest first. The runtime does not read the log. -/
structure World where
  asked : ℕ
  now : ℚ≥0
  session : SessionState
  run : RunState
  log : List Happening := []

structure NativeToolAgentBackend where
  model : Text
  tools : List AgentTool
  maxInputTokens : ℕ
  maxParallelTools : ℕ := 4
  recentToolResultsToKeep : ℕ := 5
  compactTriggerRatio : ℚ≥0 := 3 / 5
  model_nonblank : isBlank model = false
  names_nodup : (tools.map (·.name)).Nodup
  one_le_input : 1 ≤ maxInputTokens
  one_le_parallel : 1 ≤ maxParallelTools
  ratio_pos : 0 < compactTriggerRatio
  ratio_le : compactTriggerRatio ≤ 1

def consult (env : ℕ → Reply) : Prog World Fault Reply :=
  Prog.call fun w => (env w.asked, { w with asked := w.asked + 1 })

def clock (env : ℕ → Reply) : Prog World Fault ℚ≥0 :=
  Prog.call fun w =>
    (w.now + (env w.asked).elapsed, { w with asked := w.asked + 1, now := w.now + (env w.asked).elapsed })

def changeSession (f : SessionState → SessionState) : Prog World Fault Unit :=
  Prog.modify fun w => { w with session := f w.session }

def changeRun (f : RunState → RunState) : Prog World Fault Unit :=
  Prog.modify fun w => { w with run := f w.run }

def happen (h : Happening) : Prog World Fault Unit := Prog.modify fun w => { w with log := h :: w.log }

def ofExcept {α : Type} : Except Fault α → Prog World Fault α
  | .ok a => pure a
  | .error e => Prog.raise e

def appendMessages (new : List LLMMessage) : Prog World Fault Unit :=
  changeSession fun s => s.withMessages false (s.messages ++ new)

def addEvent (w : World) (kind : AgentEventKind) (callId toolName : Option Text) (content : Text) : World :=
  { w with
    session := { w.session with nextEventSequence := w.session.nextEventSequence + 1 }
    run := { w.run with
      events := w.run.events ++ [⟨w.session.sessionId, w.session.roundIndex, w.session.nextEventSequence, kind,
        w.session.lifetimeTurns, callId, toolName, content⟩] } }

def failSink (described : Text) : Prog World Fault Unit :=
  changeRun fun r => { r with sinkError := some ("event sink failed: ".toList ++ described) }

def noteEmit : Option Text → Prog World Fault Unit
  | some described => failSink described
  | none => pure ()

def emit (env : ℕ → Reply) : Prog World Fault Unit := do
  let reply ← consult env
  noteEmit reply.emitError

def recordEvent (env : ℕ → Reply) (kind : AgentEventKind) (callId toolName : Option Text) (content : Text) :
    Prog World Fault Unit := do
  Prog.modify fun w => addEvent w kind callId toolName content
  let w ← Prog.get
  if w.run.hasSink = false ∨ w.run.sinkError ≠ none then pure () else emit env

def usage : Prog World Fault UsageSnapshot := do
  let w ← Prog.get
  ofExcept (w.session.usageSnapshot.deltaFrom w.run.usageBefore)

section
variable (b : NativeToolAgentBackend) (env : ℕ → Reply)

def resultOf (w : World) (termination : AgentTermination) (finalMessage model : Text) (u : UsageSnapshot) :
    AgentSessionResult :=
  ⟨termination, w.session.sessionId, finalMessage, model, u.costUsd, u.turns, u.toolCalls, u.promptTokens,
    u.completionTokens, w.run.events⟩

def replaceLast (events : List AgentEvent) (content : Text) : List AgentEvent :=
  match events.getLast? with
  | some last => events.dropLast ++ [{ last with content := content }]
  | none => []

def failedTermination (model : Text) (u : UsageSnapshot) (error : Text) : Prog World Fault AgentSessionResult := do
  changeRun fun r => { r with events := replaceLast r.events error }
  let w ← Prog.get
  pure (resultOf w .backendError error model u)

def concluded (sinkErrorBefore : Option Text) (termination : AgentTermination) (finalMessage model : Text)
    (u : UsageSnapshot) : Prog World Fault AgentSessionResult := do
  let w ← Prog.get
  if w.run.sinkError ≠ sinkErrorBefore then
    failedTermination model u (w.run.sinkError.getD "event sink failed".toList)
  else pure (resultOf w termination finalMessage model u)

def finish (termination : AgentTermination) (finalMessage model : Text) : Prog World Fault AgentSessionResult := do
  let u ← usage
  let before ← Prog.get
  recordEvent env .termination none none finalMessage
  concluded before.run.sinkError termination finalMessage model u

def finishing (termination : AgentTermination) (finalMessage model : Text) :
    Prog World Fault (Option AgentSessionResult) := do
  let r ← finish env termination finalMessage model
  pure (some r)

/-- `if run.sink_error is not None: return self._finish(…BACKEND_ERROR…)`, else go on with `next`. -/
def orSinkError (model : Text) (next : Prog World Fault (Option AgentSessionResult)) :
    Prog World Fault (Option AgentSessionResult) := do
  let w ← Prog.get
  match w.run.sinkError with
  | some error => finishing env .backendError error model
  | none => next

def timeoutMessage : Text := "tool call was not started because the agent session deadline expired".toList

def fillTimeoutResults (calls : List LLMToolCall) (results : List (Option LLMToolResult)) (start : ℕ) :
    List (Option LLMToolResult) :=
  results.take start ++
    (calls.drop start).map fun call => some (makeToolError call.callId "timeout".toList timeoutMessage)

def raiseIf : Option Text → Prog World Fault Unit
  | some described => Prog.raise (.other described)
  | none => pure ()

def contextFactory : Prog World Fault Unit := do
  let reply ← consult env
  raiseIf reply.contextError

def isConcurrencySafe (call : LLMToolCall) : Prog World Fault Bool := do
  let reply ← consult env
  pure (decide (∃ tool ∈ b.tools, tool.name = call.name) && reply.safe)

def startPooled (place : ℕ) : Prog World Fault Unit := do
  let reply ← consult env
  raiseIf reply.submitError
  Prog.modify fun w => { w with log := .pooled place w.now reply.wait :: w.log }

def submitAll : ℕ → List LLMToolCall → Prog World Fault Unit
  | _, [] => pure ()
  | place, _ :: rest => do
    startPooled env place
    submitAll (place + 1) rest

def toolResult (call : LLMToolCall) : Prog World Fault LLMToolResult := do
  let reply ← consult env
  pure (invoke b.tools call reply.tool)

/-- `future.result()` for every call of a group, in the order of the calls. -/
def collect : ℕ → List LLMToolCall → List (Option LLMToolResult) → Prog World Fault (List (Option LLMToolResult))
  | _, [], results => pure results
  | index, call :: rest, results => do
    let r ← toolResult b env call
    collect (index + 1) rest (results.set index (some r))

/-- The safe calls that come next, and whether the deadline stopped the search for more. -/
def gather (deadline : ℚ≥0) : List LLMToolCall → Prog World Fault (List LLMToolCall × Bool)
  | [] => pure ([], false)
  | call :: rest => do
    let now ← clock env
    if deadline ≤ now then pure ([], true)
    else do
      contextFactory env
      let safe ← isConcurrencySafe b env call
      if safe = true then do
        let more ← gather deadline rest
        pure (call :: more.1, more.2)
      else pure ([], false)

structure Progress where
  index : ℕ := 0
  results : List (Option LLMToolResult)
  startedCount : ℕ := 0
  timedOut : Bool := false

def timeOutFrom (calls : List LLMToolCall) (p : Progress) : Progress :=
  { p with results := fillTimeoutResults calls p.results p.index, timedOut := true }

def afterGather (calls : List LLMToolCall) (p : Progress) (batch : List LLMToolCall) (expired : Bool) : Progress :=
  let q := { p with index := p.index + batch.length }
  if expired = true then timeOutFrom calls q else q

def runBatch (start : ℕ) (batch : List LLMToolCall) (p : Progress) : Prog World Fault Progress := do
  submitAll env 0 batch
  let results ← collect b env start batch p.results
  pure { p with results := results, startedCount := p.startedCount + batch.length }

def runAlone (call : LLMToolCall) (p : Progress) : Prog World Fault Progress := do
  contextFactory env
  Prog.modify fun w => { w with log := .alone w.now :: w.log }
  let r ← toolResult b env call
  pure { p with index := p.index + 1, results := p.results.set p.index (some r), startedCount := p.startedCount + 1 }

def executeFrom (calls : List LLMToolCall) (deadline : ℚ≥0) : ℕ → Progress → Prog World Fault Progress
  | 0, p => pure p
  | fuel + 1, p =>
    if calls.length ≤ p.index then pure p
    else do
      let now ← clock env
      if deadline ≤ now then pure (timeOutFrom calls p)
      else do
        let batch ← gather b env deadline (calls.drop p.index)
        if batch.1 ≠ [] then do
          let q ← runBatch b env p.index batch.1 (afterGather calls p batch.1 batch.2)
          executeFrom calls deadline fuel q
        else do
          let now ← clock env
          if deadline ≤ now then pure (timeOutFrom calls (afterGather calls p batch.1 batch.2))
          else
            match calls[p.index]? with
            | some call => do
              let q ← runAlone b env call (afterGather calls p batch.1 batch.2)
              executeFrom calls deadline fuel q
            | none => pure p

structure ScheduledToolResults where
  results : List LLMToolResult
  startedCount : ℕ
  timedOut : Bool

def scheduled (p : Progress) : Prog World Fault ScheduledToolResults :=
  if p.results.any (·.isNone) then Prog.raise (.runtime "tool scheduler left calls without results".toList)
  else pure ⟨p.results.filterMap id, p.startedCount, p.timedOut⟩

def execute (calls : List LLMToolCall) (deadline : ℚ≥0) : Prog World Fault ScheduledToolResults := do
  let p ← executeFrom b env calls deadline (calls.length + 1) { results := List.replicate calls.length none }
  scheduled p

def recordToolCalls : List LLMToolCall → Prog World Fault Unit
  | [] => pure ()
  | call :: rest => do
    recordEvent env .toolCall (some call.callId) (some call.name) []
    recordToolCalls rest

def recordToolResults : List (LLMToolCall × LLMToolResult) → Prog World Fault Unit
  | [] => pure ()
  | (call, result) :: rest => do
    recordEvent env .toolResult (some result.callId) (some call.name) result.content
    recordToolResults rest

def syntheticResults (calls : List LLMToolCall) (code message : Text) : List LLMToolResult :=
  calls.map fun call => makeToolError call.callId code message

def appendToolExchange (response : LLMResponse) (results : List LLMToolResult) (startedCount : ℕ) :
    Prog World Fault Unit :=
  if response.toolCalls.length ≠ results.length then
    Prog.raise (.runtime "every tool call must have exactly one tool result".toList)
  else if response.toolCalls.map (·.callId) ≠ results.map (·.callId) then
    Prog.raise (.runtime "tool result order or call ID does not match".toList)
  else do
    appendMessages [.assistant response.text response.toolCalls, .tool results]
    changeSession fun s => { s with lifetimeToolCalls := s.lifetimeToolCalls + startedCount }
    recordToolResults env (response.toolCalls.zip results)

def rejectAll (response : LLMResponse) (code message : Text)
    (last : Prog World Fault (Option AgentSessionResult)) : Prog World Fault (Option AgentSessionResult) := do
  appendToolExchange env response (syntheticResults response.toolCalls code message) 0
  orSinkError env response.model last

def schedulerFailed (response : LLMResponse) (described : Text) : Prog World Fault (Option AgentSessionResult) :=
  rejectAll env response "tool-scheduler-error".toList described
    (finishing env .backendError described response.model)

def afterExchange (response : LLMResponse) (deadline : ℚ≥0) (timedOut anyRejected : Bool) :
    Prog World Fault (Option AgentSessionResult) := do
  if timedOut = true then finishing env .timeout [] response.model
  else do
    let now ← clock env
    if deadline ≤ now then finishing env .timeout [] response.model
    else if anyRejected = true then finishing env .toolLimit [] response.model
    else pure none

def afterScheduler (response : LLMResponse) (deadline : ℚ≥0) (rejected : List LLMToolCall) (started : ℕ) :
    Except Fault ScheduledToolResults → Prog World Fault (Option AgentSessionResult)
  | .error e => do
    happen (.schedulerRaised started)
    schedulerFailed env response e.describe
  | .ok s => do
    appendToolExchange env response
      (s.results ++ syntheticResults rejected "tool-limit".toList
        "tool call was not executed because the run tool budget was exhausted".toList) s.startedCount
    orSinkError env response.model (afterExchange env response deadline s.timedOut (!rejected.isEmpty))

def invocationsIn : List Happening → ℕ
  | [] => 0
  | .pooled _ _ _ :: past => invocationsIn past + 1
  | .alone _ :: past => invocationsIn past + 1
  | _ :: past => invocationsIn past

def runTools (response : LLMResponse) (deadline : ℚ≥0) (admitted rejected : List LLMToolCall) :
    Prog World Fault (Option AgentSessionResult) := do
  let before ← Prog.get
  let outcome ← Prog.attempt (execute b env admitted deadline)
  let after ← Prog.get
  afterScheduler env response deadline rejected (invocationsIn after.log - invocationsIn before.log) outcome

def admitTools (response : LLMResponse) (deadline : ℚ≥0) (remaining : ℕ) :
    Prog World Fault (Option AgentSessionResult) := do
  recordToolCalls env response.toolCalls
  let w ← Prog.get
  match w.run.sinkError with
  | some error =>
    rejectAll env response "event-sink-error".toList "tool call was not started because transcript failed".toList
      (finishing env .backendError error response.model)
  | none => runTools b env response deadline (response.toolCalls.take remaining) (response.toolCalls.drop remaining)

def overCost (limits : AgentSessionLimits) (u : UsageSnapshot) : Bool :=
  match limits.maxCostUsd with
  | some m => decide (m ≤ u.costUsd)
  | none => false

def handleToolCalls (limits : AgentSessionLimits) (response : LLMResponse) :
    Prog World Fault (Option AgentSessionResult) := do
  let u ← usage
  let w ← Prog.get
  let now ← clock env
  if w.run.deadline ≤ now then do
    recordToolCalls env response.toolCalls
    rejectAll env response "timeout".toList timeoutMessage (finishing env .timeout [] response.model)
  else if overCost limits u = true then do
    recordToolCalls env response.toolCalls
    rejectAll env response "cost-limit".toList
      "tool call was not started because the run cost budget was exhausted".toList
      (finishing env .costLimit [] response.model)
  else admitTools b env response w.run.deadline (limits.maxToolCalls - u.toolCalls)

def estimateInputTokens : Prog World Fault ℕ := do
  let reply ← consult env
  match reply.estimate with
  | .error e => Prog.raise e
  | .ok n =>
    if n < 0 then Prog.raise (.runtime "token_estimator must return a nonnegative integer".toList)
    else pure n.toNat

def compactedToolContent (isError : Bool) : Text :=
  Json.dumpsCompact (.object [("ok".toList, .bool !isError), ("compacted".toList, .bool true),
    ("message".toList, .string "older tool result removed".toList)])

def isCompactedResult (r : LLMToolResult) : Bool := r.content = compactedToolContent r.isError

structure Location where
  messageIndex : ℕ
  resultIndex : ℕ
  result : LLMToolResult

def locations (messages : List LLMMessage) : List Location :=
  messages.zipIdx.flatMap fun m => m.1.toolResults.zipIdx.filterMap fun r =>
    if isCompactedResult r.1 = true then none else some ⟨m.2, r.2, r.1⟩

def toolNameOf (messages : List LLMMessage) (callId : Text) : Text :=
  match (messages.flatMap LLMMessage.toolCalls).reverse.find? (·.callId = callId) with
  | some call => call.name
  | none => []

def isEphemeral (messages : List LLMMessage) (l : Location) : Bool :=
  match b.tools.find? (·.name = toolNameOf messages l.result.callId) with
  | some tool => tool.ephemeral
  | none => false

def compactable (messages : List LLMMessage) (overBudget : Bool) : List Location :=
  let found := locations messages
  let old := found.take (found.length - b.recentToolResultsToKeep)
  let ephemeral := old.filter (isEphemeral b messages)
  if overBudget = true then ephemeral ++ old.filter (!isEphemeral b messages ·) else ephemeral

def compactAt (messages : List LLMMessage) (l : Location) : List LLMMessage :=
  match messages[l.messageIndex]? with
  | some original =>
    messages.set l.messageIndex (.tool (original.toolResults.set l.resultIndex
      ⟨l.result.callId, compactedToolContent l.result.isError, l.result.isError⟩))
  | none => messages

/-- How far compaction is: the ids of the results it removed and the estimate now. -/
structure Compaction where
  callIds : List Text := []
  estimated : ℕ

def compactFrom (overBudget : Bool) : List Location → Compaction → Prog World Fault Compaction
  | [], c => pure c
  | l :: rest, c => do
    let w ← Prog.get
    changeSession fun s => s.withMessages true (compactAt s.messages l)
    let candidate ← estimateInputTokens env
    if c.estimated ≤ candidate then do
      changeSession fun s => s.withMessages true w.session.messages
      compactFrom overBudget rest c
    else if overBudget = true ∧ candidate ≤ b.maxInputTokens then
      pure ⟨c.callIds ++ [l.result.callId], candidate⟩
    else compactFrom overBudget rest ⟨c.callIds ++ [l.result.callId], candidate⟩

def decimal (n : ℕ) : Text := (Nat.repr n).toList

def contextLimit (message : Text) : Prog World Fault (Option AgentSessionResult) :=
  finishing env .contextLimit message b.model

def afterCompaction (overBudget : Bool) (before : ℕ) (c : Compaction) :
    Prog World Fault (Option AgentSessionResult) :=
  if c.callIds = [] ∧ overBudget = false then pure none
  else if c.callIds = [] then
    contextLimit b env ("estimated input tokens ".toList ++ decimal before ++ " exceed limit ".toList ++
      decimal b.maxInputTokens ++ "; no eligible tool result reduced the estimate".toList)
  else do
    recordEvent env .contextCompact none none []
    orSinkError env b.model
      (if b.maxInputTokens < c.estimated then
        contextLimit b env ("estimated input tokens ".toList ++ decimal c.estimated ++
          " still exceed limit ".toList ++ decimal b.maxInputTokens ++ " after compaction".toList)
      else pure none)

def compactContext (overBudget : Bool) (before : ℕ) : Prog World Fault (Option AgentSessionResult) := do
  let w ← Prog.get
  let old := compactable b w.session.messages overBudget
  if overBudget = false ∧ old = [] then pure none
  else if old = [] then
    contextLimit b env ("estimated input tokens ".toList ++ decimal before ++ " exceed limit ".toList ++
      decimal b.maxInputTokens)
  else do
    let c ← compactFrom b env overBudget old { estimated := before }
    afterCompaction b env overBudget before c

def prepareContext : Prog World Fault (Option AgentSessionResult) := do
  let before ← estimateInputTokens env
  if before ≤ b.maxInputTokens ∧ (before : ℚ≥0) ≤ b.compactTriggerRatio * b.maxInputTokens then pure none
  else compactContext b env (decide (b.maxInputTokens < before)) before

def admitModelQuery (limits : AgentSessionLimits) : Prog World Fault (Option AgentSessionResult) := do
  let u ← usage
  let w ← Prog.get
  let now ← clock env
  if w.run.deadline ≤ now then finishing env .timeout [] b.model
  else if limits.maxTurns ≤ u.turns then finishing env .turnLimit [] b.model
  else if overCost limits u = true then finishing env .costLimit [] b.model
  else prepareContext b env

/-- Exceptions of the admission end the run, but for those that say the account is empty. -/
def admission (limits : AgentSessionLimits) : Prog World Fault (Option AgentSessionResult) :=
  Prog.rescue (admitModelQuery b env limits) fun e =>
    match e with
    | .billing _ => none
    | e => some (finishing env .backendError e.describe b.model)

def recoverMalformedToolCall (error : Text) : Prog World Fault (Option AgentSessionResult) := do
  let w ← Prog.get
  if maxToolCallRecoveries ≤ w.run.toolCallRecoveries then finishing env .protocolError error b.model
  else do
    changeRun fun r => { r with toolCallRecoveries := r.toolCallRecoveries + 1 }
    appendMessages [.user (malformedToolCallRetry error)]
    recordEvent env .recovery none none (malformedToolCallRetry error)
    orSinkError env b.model (pure none)

def recordModelResponse (response : LLMResponse) : Prog World Fault Unit := do
  changeSession fun s => { s with
    lifetimeTurns := s.lifetimeTurns + 1
    lifetimeCostUsd := s.lifetimeCostUsd + response.cost
    lifetimePromptTokens := s.lifetimePromptTokens + response.promptTokens
    lifetimeCompletionTokens := s.lifetimeCompletionTokens + response.completionTokens }
  recordEvent env .modelResponse none none response.text

def appendText (response : LLMResponse) : Prog World Fault Unit :=
  if isBlank response.text = true then pure () else appendMessages [.assistant response.text []]

def continueOutput (response : LLMResponse) : Prog World Fault (Option AgentSessionResult) := do
  changeRun fun r => { r with recoveries := r.recoveries + 1 }
  changeSession fun s => { s with outputRecoveries := s.outputRecoveries + 1 }
  appendMessages [.user maxTokensContinuation]
  recordEvent env .recovery none none maxTokensContinuation
  orSinkError env response.model (pure none)

def decideStop (response : LLMResponse) (recoveries : ℕ) : Prog World Fault (Option AgentSessionResult) :=
  match response.stopReason with
  | .completed =>
    if isBlank response.text = true then
      finishing env .protocolError "completed model response was empty".toList response.model
    else finishing env .completed response.text response.model
  | .refusal => finishing env .refusal response.text response.model
  | .contentFilter => finishing env .contentFilter response.text response.model
  | .maxTokens =>
    if isBlank response.text = true then
      finishing env .protocolError "max-token model response was empty".toList response.model
    else if 1 ≤ recoveries then finishing env .outputLimit response.text response.model
    else continueOutput env response
  | .toolCalls =>
    finishing env .protocolError "unsupported model stop reason: tool_calls".toList response.model

def decideResponse (response : LLMResponse) : Prog World Fault (Option AgentSessionResult) := do
  appendText response
  let w ← Prog.get
  decideStop env response w.run.recoveries

def lateResponse (response : LLMResponse) : Prog World Fault (Option AgentSessionResult) := do
  appendText response
  finishing env .timeout response.text response.model

def handleText (response : LLMResponse) : Prog World Fault (Option AgentSessionResult) := do
  let w ← Prog.get
  let now ← clock env
  if w.run.deadline ≤ now then lateResponse env response else decideResponse env response

def handleResponse (limits : AgentSessionLimits) (response : LLMResponse) :
    Prog World Fault (Option AgentSessionResult) := do
  happen (.answered response)
  recordModelResponse env response
  orSinkError env response.model
    (if response.stopReason = .toolCalls then handleToolCalls b env limits response else handleText env response)

def queryFailed (error : Text) : Prog World Fault (Option AgentSessionResult) := do
  let w ← Prog.get
  let now ← clock env
  finishing env (if w.run.deadline ≤ now then .timeout else .backendError) error b.model

def handleAnswer (limits : AgentSessionLimits) : Answer → Prog World Fault (Option AgentSessionResult)
  | .response r => handleResponse b env limits r
  | .malformed error => recoverMalformedToolCall b env error
  | .protocolError error => finishing env .protocolError error b.model
  | .transient error => queryFailed b env error
  | .billing error => Prog.raise (.billing error)
  | .other described => queryFailed b env described

def query : Prog World Fault Answer := do
  Prog.modify fun w => { w with log := .query w.now :: w.log }
  let reply ← consult env
  pure reply.answer

def queryModel (limits : AgentSessionLimits) : Prog World Fault (Option AgentSessionResult) := do
  let w ← Prog.get
  let now ← clock env
  if w.run.deadline ≤ now then finishing env .timeout [] b.model
  else do
    let answer ← query env
    handleAnswer b env limits answer

def turn (limits : AgentSessionLimits) : Prog World Fault (Option AgentSessionResult) := do
  let admitted ← admission b env limits
  match admitted with
  | some r => pure (some r)
  | none => queryModel b env limits

/-- `none` when the rounds ran out before the run ended. -/
def rounds (limits : AgentSessionLimits) : ℕ → Prog World Fault (Option AgentSessionResult)
  | 0 => pure none
  | n + 1 => do
    let r ← turn b env limits
    match r with
    | some r => pure (some r)
    | none => rounds limits n

def runSession (limits : AgentSessionLimits) (opened : AgentEventKind) (fuel : ℕ) :
    Prog World Fault (Option AgentSessionResult) := do
  recordEvent env opened none none []
  orSinkError env b.model (rounds b env limits fuel)

structure Host where
  asked : ℕ := 0
  now : ℚ≥0 := 0
  sessions : List SessionState := []

def quoted (t : Text) : Text := '\'' :: (t ++ ['\''])

def create (sessions : List SessionState) (request : AgentSessionRequest) (freshId : Text) :
    Except Fault SessionState :=
  if isBlank request.system = true then
    .error (.value "new agent session requires a non-empty system prompt".toList)
  else if isBlank request.user = true then
    .error (.value "new agent session requires a non-empty user prompt".toList)
  else if request.feedback ≠ [] then
    .error (.value "new agent session cannot contain repair feedback".toList)
  else if isBlank freshId = true then
    .error (.runtime "session_id_factory returned an invalid ID".toList)
  else if sessions.any (·.sessionId = freshId) = true then
    .error (.runtime ("session_id_factory returned duplicate ID: ".toList ++ quoted freshId))
  else
    .ok { sessionId := freshId, messages := [.system request.system, .user request.user],
          workdir := request.workdir, parentId := request.parentId, operator := request.operator,
          model := b.model, toolNames := b.tools.map (·.name) }

def contentAt (messages : List LLMMessage) (i : ℕ) : Text := ((messages[i]?).map (·.content)).getD []

def mismatches (s : SessionState) (request : AgentSessionRequest) : List Text :=
  ([("workdir", request.workdir = s.workdir), ("parent_id", request.parentId = s.parentId),
    ("operator", request.operator = s.operator), ("model", b.model = s.model),
    ("tool_names", b.tools.map (·.name) = s.toolNames), ("system", request.system = contentAt s.messages 0), ("user", request.user = contentAt s.messages 1)] :
    List (String × Bool)).filterMap fun field => if field.2 = true then none else some field.1.toList

def resume (sessions : List SessionState) (request : AgentSessionRequest) (sessionId : Text) :
    Except Fault SessionState :=
  match sessions.find? (·.sessionId = sessionId) with
  | none => .error (.value ("unknown agent session: ".toList ++ quoted sessionId))
  | some s =>
    if mismatches b s request ≠ [] then
      .error (.value ("agent session fingerprint mismatch: ".toList ++ join ", ".toList (mismatches b s request)))
    else if request.feedback = [] then
      .error (.value "resumed agent session requires preflight feedback".toList)
    else
      .ok { s.withMessages false (s.messages ++ [.user (renderPreflightFeedback request.feedback)]) with
        roundIndex := s.roundIndex + 1 }

def openSession (sessions : List SessionState) (request : AgentSessionRequest) (isDir : Bool) (freshId : Text) :
    Except Fault SessionState :=
  if isDir = false then .error (.value "agent session workdir must be an existing directory".toList)
  else
    match request.sessionId with
    | none => create b sessions request freshId
    | some id => resume b sessions request id

def openedEvent (request : AgentSessionRequest) : AgentEventKind :=
  match request.sessionId with
  | none => .sessionStart
  | some _ => .sessionResume

def startRun (request : AgentSessionRequest) (startedAt : ℚ≥0) (s : SessionState) : RunState :=
  { deadline := startedAt + request.limits.timeoutS, usageBefore := s.usageSnapshot, hasSink := request.hasSink }

/-- The world in which a run starts: the clock has been read, and the session is open. -/
def startWorld (host : Host) (request : AgentSessionRequest) (s : SessionState) : World :=
  { asked := host.asked + 2, now := host.now + (env host.asked).elapsed, session := s
    run := startRun request (host.now + (env host.asked).elapsed) s }

def Host.runOf (host : Host) (request : AgentSessionRequest) (s : SessionState) (fuel : ℕ) :
    Except Fault (Option AgentSessionResult) × World :=
  runSession b env request.limits (openedEvent request) fuel (startWorld env host request s)

def storeSession (sessions : List SessionState) (s : SessionState) : List SessionState :=
  s :: sessions.filter (·.sessionId ≠ s.sessionId)

/-- `NativeToolAgentBackend.run`. A session keeps what a run that raised did to it. -/
def Host.run (host : Host) (request : AgentSessionRequest) (fuel : ℕ) :
    Except Fault (Option AgentSessionResult) × Host :=
  match openSession b host.sessions request (env host.asked).isDir (env (host.asked + 1)).freshId with
  | .error e => (.error e, { host with asked := host.asked + 2, now := host.now + (env host.asked).elapsed })
  | .ok s =>
    let ended := host.runOf b env request s fuel
    (ended.1, ⟨ended.2.asked, ended.2.now, storeSession host.sessions ended.2.session⟩)

def Host.release (host : Host) (sessionId : Text) : Host :=
  { host with sessions := host.sessions.filter (·.sessionId ≠ sessionId) }

end
end EvoHarness.Core.Agent
