import EvoHarness.Core.Agent.Messages
import EvoHarness.Library.Hoare
import EvoHarness.Library.PyData
import EvoHarness.Library.Traversal

/-! `_parse_responses_response` and `_parse_openai_chat_response`: the answer of an endpoint becomes a response or an
error. -/
namespace EvoHarness.Core.Llm.Parsers
open PyText PyData Hoare Traversal
open Agent (LLMStopReason)

inductive ParseError where
  | protocolError (message : Text)
  | toolCallFormat (message : Text)
  | transient (message : Text)
  | valueError (message : Text)
  | typeError
  | overflowError
  | recursionError
deriving DecidableEq

def ParseError.declared : ParseError → Bool
  | .protocolError _ | .toolCallFormat _ | .transient _ => true
  | _ => false

structure LLMToolCall where
  callId : Text
  name : Text
  arguments : List (Text × Data)

def isNameChar (c : Char) : Bool :=
  'A' ≤ c && c ≤ 'Z' || 'a' ≤ c && c ≤ 'z' || '0' ≤ c && c ≤ '9' || c = '_' || c = '-'

def isToolName (name : Text) : Bool := 1 ≤ name.length && name.length ≤ 64 && name.all isNameChar

def LLMToolCall.make (callId name arguments : Data) : Except ParseError LLMToolCall :=
  match callId with
  | .string id =>
    if strip id = [] then .error (.valueError "tool call_id must be non-empty".toList)
    else
      match name with
      | .string n =>
        if isToolName n = false then .error (.valueError "tool name must match ^[A-Za-z0-9_-]\x7b1,64\x7d$".toList)
        else
          match arguments with
          | .object ps => .ok ⟨id, n, ps⟩
          | _ => .error (.valueError "tool arguments must be a JSON object".toList)
      | _ => .error (.valueError "tool name must match ^[A-Za-z0-9_-]\x7b1,64\x7d$".toList)
  | _ => .error (.valueError "tool call_id must be non-empty".toList)

structure LLMResponse where
  text : Text
  model : Text
  cost : FloatValue
  promptTokens : ℤ
  completionTokens : ℤ
  cachedPromptTokens : ℤ
  toolCalls : List LLMToolCall
  stopReason : LLMStopReason
  model_nonempty : strip model ≠ []
  accounting : cost.below 0 = false ∧ 0 ≤ promptTokens ∧ 0 ≤ completionTokens ∧ 0 ≤ cachedPromptTokens
  cached_le : cachedPromptTokens ≤ promptTokens
  ids_nodup : (toolCalls.map (·.callId)).Nodup
  calls_iff : stopReason = .toolCalls ↔ toolCalls ≠ []

/-- `LLMResponse(...)` of a text, a model and a stop reason of the right types. -/
def LLMResponse.make (text model : Text) (cost : FloatValue) (prompt completion cached : ℤ) (calls : List LLMToolCall)
    (stop : LLMStopReason) : Except ParseError LLMResponse :=
  if hmodel : strip model = [] then .error (.valueError "response model must be non-empty".toList)
  else if haccounting : cost.below 0 = false ∧ 0 ≤ prompt ∧ 0 ≤ completion ∧ 0 ≤ cached then
    if hcached : cached ≤ prompt then
      if hids : (calls.map (·.callId)).Nodup then
        if hcalls : calls ≠ [] ∧ stop ≠ .toolCalls then
          .error (.valueError "responses with tool_calls must use TOOL_CALLS stop reason".toList)
        else if hstop : stop = .toolCalls ∧ calls = [] then
          .error (.valueError "TOOL_CALLS stop reason requires at least one tool call".toList)
        else .ok {
          text, model, cost
          promptTokens := prompt
          completionTokens := completion
          cachedPromptTokens := cached
          toolCalls := calls
          stopReason := stop
          model_nonempty := hmodel
          accounting := haccounting
          cached_le := hcached
          ids_nodup := hids
          calls_iff := ⟨fun h hnil => hstop ⟨h, hnil⟩, fun h => by_contra fun h' => hcalls ⟨h, h'⟩⟩ }
      else .error (.valueError "response tool call IDs must be unique".toList)
    else .error (.valueError "cached_prompt_tokens cannot exceed prompt_tokens".toList)
  else .error (.valueError "LLM response accounting cannot be negative".toList)

section
variable (py : Builtins)

/-- `except (json.JSONDecodeError, ValueError)` around one tool call. -/
def atIndex {α : Type} (index : ℕ) : Except ParseError α → Except ParseError α
  | .error (.valueError message) =>
    .error (.toolCallFormat ("invalid tool call at index ".toList ++ Nat.toDigits 10 index ++ ": ".toList ++ message))
  | r => r

def loads (t : Text) : Except ParseError Data :=
  match py.loads t with
  | .ok x => .ok x
  | .error (.valueError message) => .error (.valueError message)
  | .error .recursionError => .error .recursionError

def toolCall (callId name arguments : Data) : Except ParseError LLMToolCall :=
  match arguments with
  | .string t => do
    let parsed ← loads py t
    LLMToolCall.make callId name parsed
  | _ => .error (.valueError "tool call arguments must be a JSON string".toList)

structure Collected where
  chunks : List Text := []
  calls : List LLMToolCall := []

/-- `str(part.get("text") or "")` for each part that holds text. -/
def chunk (part : Data) : List Text :=
  match part with
  | .object ps =>
    if isText "output_text".toList (get ps "type".toList) then
      [if truthy (get ps "text".toList) then py.str (get ps "text".toList) else []]
    else []
  | _ => []

def readItem (index : ℕ) (item : Data) : Except ParseError Collected :=
  match item with
  | .object ps =>
    if isText "message".toList (get ps "type".toList) then
      if truthy (get ps "content".toList) then
        match iterate? (get ps "content".toList) with
        | some parts => .ok { chunks := parts.flatMap (chunk py) }
        | none => .error .typeError
      else .ok {}
    else if isText "function_call".toList (get ps "type".toList) then do
      let call ← atIndex index
        (toolCall py (get ps "call_id".toList) (get ps "name".toList) (get ps "arguments".toList))
      return { calls := [call] }
    else .ok {}
  | _ => .error (.protocolError "provider output item must be an object".toList)

def count (x : Data) : Except ParseError ℤ :=
  if truthy x then
    match x with
    | .bool b => .ok (if b then 1 else 0)
    | .int z => .ok z
    | .float (.finite q) => .ok (truncate q)
    | .float .nan => .error (.valueError "cannot convert float NaN to integer".toList)
    | .float (.infinite _) => .error .overflowError
    | .string t =>
      match py.intText t with
      | some z => .ok z
      | none => .error (.valueError ("invalid literal for int() with base 10: ".toList ++ py.repr (.string t)))
    | _ => .error .typeError
  else .ok 0

def cutOff (ps : List (Text × Data)) : Option LLMStopReason :=
  if isText "incomplete".toList (get ps "status".toList) then
    let reason := get (members (get ps "incomplete_details".toList)) "reason".toList
    if isText "max_output_tokens".toList reason then some .maxTokens
    else if isText "content_filter".toList reason then some .contentFilter
    else none
  else none

def modelOf (ps : List (Text × Data)) (requestedModel : Text) : Text :=
  if truthy (get ps "model".toList) then py.str (get ps "model".toList) else requestedModel

def finish (ps : List (Text × Data)) (requestedModel : Text) (cost : FloatValue) (read : List Collected) :
    Except ParseError LLMResponse := do
  let usage := members (get ps "usage".toList)
  let calls := read.flatMap (·.calls)
  let stop := (cutOff ps).getD (if calls ≠ [] then .toolCalls else .completed)
  let prompt ← count py (get usage "input_tokens".toList)
  let completion ← count py (get usage "output_tokens".toList)
  let cached ← count py (get (members (get usage "input_tokens_details".toList)) "cached_tokens".toList)
  LLMResponse.make (read.flatMap (·.chunks)).flatten (modelOf py ps requestedModel) cost prompt completion cached calls stop

def parseResponsesResponse (response : Data) (requestedModel : Text) (cost : FloatValue) : Except ParseError LLMResponse :=
  match response with
  | .object ps =>
    match get ps "output".toList with
    | .array items => do
      let read ← gather (readItem py) 0 items
      finish py ps requestedModel cost read
    | _ => .error (.transient ("provider response has no output array: ".toList ++ (py.dumps response).take 300))
  | _ => .error (.protocolError "provider response must be an object".toList)

def readCall (index : ℕ) (call : Data) : Except ParseError LLMToolCall :=
  atIndex index (match call with
    | .object ps =>
      if isText "function".toList (get ps "type".toList) = false then
        .error (.valueError "unsupported tool call type".toList)
      else
        match get ps "function".toList with
        | .object fs => toolCall py (get ps "id".toList) (get fs "name".toList) (get fs "arguments".toList)
        | _ => .error (.valueError "tool call function must be an object".toList)
    | _ => .error (.valueError "tool call must be an object".toList))

def parseOpenaiToolCalls (message : List (Text × Data)) : Except ParseError (List LLMToolCall) :=
  match get message "tool_calls".toList with
  | .null => .ok []
  | .array calls => gather (readCall py) 0 calls
  | _ => .error (.protocolError "provider tool_calls must be an array".toList)

def openaiStopReasons : List (Text × LLMStopReason) :=
  [("stop".toList, .completed), ("tool_calls".toList, .toolCalls), ("length".toList, .maxTokens),
    ("content_filter".toList, .contentFilter)]

def chosen (ps : List (Text × Data)) : Except ParseError (List (Text × Data) × List (Text × Data)) :=
  match get ps "error".toList with
  | .object es => .error (.transient ("provider error (".toList ++
      (if truthy (get es "type".toList) then py.str (get es "type".toList) else "error".toList) ++ "): ".toList ++
      (py.str (get es "message".toList)).take 200))
  | _ =>
    match get ps "choices".toList with
    | .null => .error (.transient "provider response has no choices".toList)
    | .array [] => .error (.transient "provider returned an empty choices array (no completion)".toList)
    | .array (.object choice :: _) =>
      match get choice "message".toList with
      | .object message => .ok (choice, message)
      | _ => .error (.protocolError "provider response is missing message".toList)
    | .array _ => .error (.protocolError "provider choice must be an object".toList)
    | _ => .error (.protocolError "provider response choices must be an array".toList)

def optionalText (message : Text) : Data → Except ParseError Text
  | .null => .ok []
  | .string t => .ok t
  | _ => .error (.protocolError message)

def stopReasonOf (choice : List (Text × Data)) (refusal : Text) (calls : List LLMToolCall) :
    Except ParseError LLMStopReason :=
  match get choice "finish_reason".toList with
  | .string raw =>
    match (openaiStopReasons.find? (·.1 = raw)).map (·.2) with
    | none => .error (.protocolError ("unsupported provider finish_reason: ".toList ++ py.repr (.string raw)))
    | some stop =>
      if calls ≠ [] then
        if raw ≠ "tool_calls".toList then
          .error (.protocolError "provider returned tool calls with an incompatible finish_reason".toList)
        else .ok .toolCalls
      else if stop = .toolCalls then
        .error (.protocolError "provider returned a tool-call finish_reason without tool calls".toList)
      else if refusal ≠ [] ∧ stop = .completed then .ok .refusal
      else .ok stop
  | _ => .error (.protocolError "provider finish_reason must be a string".toList)

def tokenCount : Data → Except ParseError ℤ
  | .int z =>
    if z < 0 then .error (.protocolError "provider token counts must be nonnegative integers".toList) else .ok z
  | _ => .error (.protocolError "provider token counts must be nonnegative integers".toList)

def counter (usage : List (Text × Data)) (name : Text) : Data := ((usage.find? (·.1 = name)).map (·.2)).getD (.int 0)

/-- `max(0, min(candidate, prompt_tokens))`, where both are counts. -/
def cachedCount (usage : List (Text × Data)) (prompt : ℤ) : ℤ :=
  match get usage "prompt_tokens_details".toList with
  | .object details =>
    match counter details "cached_tokens".toList with
    | .int candidate => max 0 (min candidate prompt)
    | _ => 0
  | _ => 0

def usageOf : Data → Except ParseError (List (Text × Data))
  | .null => .ok []
  | .object usage => .ok usage
  | _ => .error (.protocolError "provider usage must be an object".toList)

def providerModel (requestedModel : Text) : Data → Except ParseError Text
  | .null => .ok requestedModel
  | .string model => .ok model
  | _ => .error (.protocolError "provider model must be a string".toList)

/-- `except (TypeError, ValueError)` around the response. -/
def asProtocolError {α : Type} : Except ParseError α → Except ParseError α
  | .error (.valueError message) => .error (.protocolError ("invalid provider response: ".toList ++ message))
  | r => r

def conclude (ps choice : List (Text × Data)) (text refusal requestedModel : Text) (cost : FloatValue)
    (calls : List LLMToolCall) : Except ParseError LLMResponse := do
  let stop ← stopReasonOf py choice refusal calls
  let usage ← usageOf (get ps "usage".toList)
  let prompt ← tokenCount (counter usage "prompt_tokens".toList)
  let completion ← tokenCount (counter usage "completion_tokens".toList)
  let model ← providerModel requestedModel (get ps "model".toList)
  asProtocolError (LLMResponse.make text model cost prompt completion (cachedCount usage prompt) calls stop)

def parseOpenaiChatResponse (response : Data) (requestedModel : Text) (cost : FloatValue) :
    Except ParseError LLMResponse :=
  match response with
  | .object ps => do
    let (choice, message) ← chosen py ps
    let content ← optionalText "provider message content must be a string or null".toList (get message "content".toList)
    let refusal ← optionalText "provider refusal must be a string".toList (get message "refusal".toList)
    let text := if refusal ≠ [] ∧ content = [] then refusal else content
    let calls ← parseOpenaiToolCalls py message
    conclude py ps choice text refusal requestedModel cost calls
  | _ => .error (.protocolError "provider response must be an object".toList)

end

end EvoHarness.Core.Llm.Parsers
