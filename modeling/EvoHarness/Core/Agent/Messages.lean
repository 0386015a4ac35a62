import EvoHarness.Library.Json
import Mathlib.Data.NNRat.Defs
import Mathlib.Algebra.Order.Ring.Rat

/-! What a model, the tools and the agent runtime say to one another. -/
namespace EvoHarness.Core.Agent
open PyText

structure LLMToolCall where
  callId : Text
  name : Text
  arguments : List (Text × Json.Value)

structure LLMToolResult where
  callId : Text
  content : Text
  isError : Bool
deriving DecidableEq

inductive LLMStopReason where
  | completed
  | toolCalls
  | maxTokens
  | contentFilter
  | refusal
deriving DecidableEq

structure LLMResponse where
  text : Text
  model : Text
  cost : ℚ≥0 := 0
  promptTokens : ℕ := 0
  completionTokens : ℕ := 0
  cachedPromptTokens : ℕ := 0
  toolCalls : List LLMToolCall := []
  stopReason : LLMStopReason := .completed
  cached_le : cachedPromptTokens ≤ promptTokens
  ids_nodup : (toolCalls.map (·.callId)).Nodup
  calls_iff : stopReason = .toolCalls ↔ toolCalls ≠ []

/-- One message of a conversation. Only an assistant calls tools, and only a tool message has results. -/
inductive LLMMessage where
  | system (content : Text)
  | user (content : Text)
  | assistant (content : Text) (toolCalls : List LLMToolCall)
  | tool (toolResults : List LLMToolResult)

def LLMMessage.content : LLMMessage → Text
  | .system c => c
  | .user c => c
  | .assistant c _ => c
  | .tool _ => []

def LLMMessage.toolCalls : LLMMessage → List LLMToolCall
  | .assistant _ calls => calls
  | _ => []

def LLMMessage.toolResults : LLMMessage → List LLMToolResult
  | .tool results => results
  | _ => []

def makeToolResult (callId : Text) (payload : Json.Value) (isError : Bool) : LLMToolResult :=
  ⟨callId, Json.dumpsCompact payload, isError⟩

def makeToolError (callId code message : Text) : LLMToolResult :=
  makeToolResult callId
    (.object [("ok".toList, .bool false),
      ("error".toList, .object [("code".toList, .string code), ("message".toList, .string message)])]) true

/-- A tool of the registry, with the name of its definition and whether its results are ephemeral. -/
structure AgentTool where
  name : Text
  ephemeral : Bool

/-- What `tool.invoke` does: it returns a result or something else, or raises. -/
inductive ToolAnswer where
  | result (r : LLMToolResult)
  | notResult
  | agentError (code message : Text)
  | raised (described : Text)

/-- `AgentToolRegistry.invoke` never raises: every failure of the tool becomes a result. -/
def invoke (tools : List AgentTool) (call : LLMToolCall) (answer : ToolAnswer) : LLMToolResult :=
  if tools.any fun tool => tool.name = call.name then
    match answer with
    | .result r =>
      if r.callId = call.callId then r
      else makeToolError call.callId "tool-error".toList
        "ValueError: tool result call_id must match the request".toList
    | .notResult => makeToolError call.callId "tool-error".toList
        "TypeError: tool invoke() must return LLMToolResult".toList
    | .agentError code message => makeToolError call.callId code message
    | .raised described => makeToolError call.callId "tool-error".toList described
  else makeToolError call.callId "unknown-tool".toList ("unknown tool: ".toList ++ call.name)

theorem makeToolError_callId (callId code message : Text) : (makeToolError callId code message).callId = callId := rfl

theorem invoke_callId (tools : List AgentTool) (call : LLMToolCall) (answer : ToolAnswer) :
    (invoke tools call answer).callId = call.callId := by
  unfold invoke
  split
  · cases answer with
    | result r =>
      by_cases h : r.callId = call.callId
      · simp only [h, if_true]
      · simp only [h, if_false, makeToolError_callId]
    | notResult => rfl
    | agentError code message => rfl
    | raised described => rfl
  · rfl

structure PreflightIssue where
  validator : Text
  code : Text
  message : Text
  repairable : Bool := true
  path : Option Text := none
  line : Option Json.Numeral := none
  column : Option Json.Numeral := none
  command : Option (List Text) := none
  stdout : Text := []
  stderr : Text := []

def maxOutputChars : ℕ := 8000

def truncationMarker : Text := "\n...<truncated>...\n".toList

def truncateToolText (text : Text) (maxChars : ℕ) : Text × Bool :=
  if text.length ≤ maxChars then (text, false)
  else
    let remaining := maxChars - truncationMarker.length
    let headChars := remaining * 2 / 3
    (text.take headChars ++ truncationMarker ++ text.drop (text.length - (remaining - headChars)), true)

def optional {α : Type} (f : α → Json.Value) : Option α → Json.Value
  | some a => f a
  | none => .null

def preflightIssueToPayload (issue : PreflightIssue) : Json.Value :=
  let stdout := truncateToolText issue.stdout maxOutputChars
  let stderr := truncateToolText issue.stderr maxOutputChars
  .object [("validator".toList, .string issue.validator), ("code".toList, .string issue.code),
    ("message".toList, .string issue.message), ("repairable".toList, .bool issue.repairable),
    ("path".toList, optional .string issue.path), ("line".toList, optional .number issue.line),
    ("column".toList, optional .number issue.column),
    ("command".toList, optional (fun words => .array (words.map .string)) issue.command),
    ("stdout".toList, .string stdout.1), ("stderr".toList, .string stderr.1),
    ("stdout_truncated".toList, .bool stdout.2), ("stderr_truncated".toList, .bool stderr.2)]

def renderPreflightFeedback (issues : List PreflightIssue) : Text :=
  Json.dumpsCompact (.object [("type".toList, .string "preflight_feedback".toList),
    ("instruction".toList, .string "Repair the reported issues in the existing workspace.".toList),
    ("issues".toList, .array (issues.map preflightIssueToPayload))])

inductive AgentTermination where
  | completed
  | timeout
  | turnLimit
  | toolLimit
  | costLimit
  | contextLimit
  | outputLimit
  | refusal
  | contentFilter
  | protocolError
  | backendError
deriving DecidableEq

inductive AgentEventKind where
  | sessionStart
  | sessionResume
  | modelResponse
  | toolCall
  | toolResult
  | contextCompact
  | recovery
  | termination
deriving DecidableEq

structure AgentEvent where
  sessionId : Text
  roundIndex : ℕ
  sequence : ℕ
  kind : AgentEventKind
  turn : ℕ
  callId : Option Text := none
  toolName : Option Text := none
  content : Text := []
deriving DecidableEq

structure AgentSessionLimits where
  maxTurns : ℕ := 12
  maxToolCalls : ℕ := 40
  timeoutS : ℚ≥0 := 300
  maxCostUsd : Option ℚ≥0 := none
  maxTokens : Option ℕ := none
  one_le_turns : 1 ≤ maxTurns
  timeout_pos : 0 < timeoutS
  tokens_pos : ∀ m, maxTokens = some m → 1 ≤ m

theorem AgentSessionLimits.unlimited (m : ℕ) (h : none = some m) : 1 ≤ m := by cases h

def AgentSessionLimits.default : AgentSessionLimits where
  timeoutS := (300 : ℕ)
  one_le_turns := by decide
  timeout_pos := by norm_num
  tokens_pos := unlimited

structure AgentSessionRequest where
  system : Text
  user : Text
  parentId : Text
  operator : Text
  workdir : Text
  limits : AgentSessionLimits
  hasSink : Bool := false
  sessionId : Option Text := none
  feedback : List PreflightIssue := []

structure AgentSessionResult where
  termination : AgentTermination
  sessionId : Text
  finalMessage : Text
  model : Text
  costUsd : ℚ≥0
  turns : ℕ
  toolCalls : ℕ
  promptTokens : ℕ
  completionTokens : ℕ
  events : List AgentEvent

end EvoHarness.Core.Agent
