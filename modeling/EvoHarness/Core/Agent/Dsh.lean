import EvoHarness.Library.PyData
import EvoHarness.Library.Exits
import EvoHarness.Core.Agent.Runtime
import Mathlib.Logic.Function.Basic

/-! The agent backend over the harness of a deployment: one runtime for each session, and what it
reports translated into the events of the native one. -/
namespace EvoHarness.Core.Agent.Dsh
open PyText Hoare PyData

def getOr (ps : List (Text × Data)) (k : Text) (default : Data) : Data :=
  ((ps.find? (·.1 = k)).map (·.2)).getD default

def noneInt : Data → ℕ
  | .int z => z.toNat
  | _ => 0

def optionalText : Data → Option Text
  | .string s => if isBlank s = true then none else some s
  | _ => none

def textBlock : Data → Option Text
  | .object ps =>
    match get ps "text".toList with
    | .string t => if isText "text".toList (get ps "type".toList) = true then some t else none
    | _ => none
  | _ => none

def blockTexts : Data → List Text
  | .object ps =>
    match textBlock (.object ps) with
    | some t => [t]
    | none =>
      match get ps "content".toList with
      | .array nested => nested.filterMap textBlock
      | _ => []
  | _ => []

def messageText : Data → Text
  | .string s => s
  | .object ps =>
    match get ps "content".toList with
    | .string s => s
    | .array blocks => (blocks.flatMap blockTexts).flatten
    | _ => []
  | _ => []

structure Draft where
  kind : AgentEventKind
  turn : ℕ := 0
  callId : Option Text := none
  toolName : Option Text := none
  content : Text := []

section
variable (py : Builtins)

def rawKind (raw : List (Text × Data)) : Text := py.str (getOr raw "type".toList (.string []))

def rawData (raw : List (Text × Data)) : List (Text × Data) := members (get raw "data".toList)

def translate : Data → Option Draft
  | .object raw =>
    let data := rawData raw
    let turn := noneInt (get data "turn".toList)
    let message := get data "message".toList
    if rawKind py raw = "assistant/message".toList then
      some { kind := .modelResponse, turn, content := messageText message }
    else if rawKind py raw = "tool/call".toList then
      some { kind := .toolCall, turn, callId := optionalText (get data "callId".toList)
             toolName := optionalText (get data "name".toList)
             content := py.str (getOr data "arguments".toList (.string [])) }
    else if rawKind py raw = "tool/result".toList then
      some { kind := .toolResult, turn
             callId := optionalText (get (members (get (members message) "source".toList)) "callId".toList)
             content := messageText message }
    else if "compaction/".toList.isPrefixOf (rawKind py raw) then some { kind := .contextCompact, turn }
    else none
  | _ => none

def tokensOf : Data → ℕ × ℕ
  | .object raw =>
    if rawKind py raw = "assistant/message".toList then
      let usage := members (get (rawData raw) "usage".toList)
      (noneInt (getOr usage "inputTokens".toList (get usage "promptTokens".toList)),
        noneInt (getOr usage "outputTokens".toList (get usage "completionTokens".toList)))
    else (0, 0)
  | _ => (0, 0)

end

def terminationByTurnEndKind : List (Text × AgentTermination) :=
  [("completed".toList, .completed), ("aborted".toList, .timeout), ("blocked".toList, .refusal),
    ("error".toList, .backendError), ("max-tokens".toList, .outputLimit), ("interrupted".toList, .protocolError)]

/-- A turn whose end was not recorded, or is of no known kind, has not completed. -/
def terminationFor : Option Text → AgentTermination
  | none => .protocolError
  | some reason => ((terminationByTurnEndKind.find? (·.1 = reason)).map (·.2)).getD .protocolError

/-- `result.events`, `result.final_response` and `result.finish_reason` -/
structure HarnessResult where
  events : List Data
  finalResponse : Text
  finishReason : Option Text

/-- How something outside goes wrong: with an exception that `except Exception` catches, or with one
that it lets through. -/
inductive Trouble where
  | exception (described : Text)
  | interrupt (fault : Fault)

/-- What a run hears from outside. `emitError` is what the sink raises when it is given its `k`-th event
of the run. -/
structure Reply where
  freshId : Text := []
  launch : Option Trouble := none
  answer : Text → Except Trouble HarnessResult
  emitError : ℕ → Option Fault := fun _ => none

structure LiveSession where
  workdir : Text
  rounds : ℕ := 0
  sequence : ℕ := 0

abbrev Sessions := Text → Option LiveSession

structure DshRuntimeSpec where
  model : Text
  priceUsdPerMtok : Option (ℚ≥0 × ℚ≥0) := none

/-- What a run has done so far. The backend does not read `delivered`. -/
structure Turn where
  live : LiveSession
  translated : List AgentEvent := []
  delivered : List AgentEvent := []

def checkedEvent (e : AgentEvent) : Except Fault AgentEvent :=
  if isBlank e.sessionId = true then .error (.value "agent event session_id must be non-empty".toList)
  else if e.callId.any isBlank = true then .error (.value "agent event call_id must be non-empty".toList)
  else if e.toolName.any isBlank = true then .error (.value "agent event tool_name must be non-empty".toList)
  else .ok e

def blankLine : Text := "\n\n".toList

def composePrompt (request : AgentSessionRequest) (resumed : Bool) : Text :=
  let first := if resumed = true then [] else [request.user]
  let second :=
    if request.feedback ≠ [] then [renderPreflightFeedback request.feedback]
    else if resumed = true then [request.user] else []
  join blankLine ((first ++ second).filter (!isBlank ·))

section
variable (spec : DshRuntimeSpec) (py : Builtins) (id : Text) (request : AgentSessionRequest) (reply : Reply)

def raiseFault : Option Fault → Prog Turn Fault Unit
  | some e => Prog.raise e
  | none => pure ()

def deliver (event : AgentEvent) : Prog Turn Fault Unit :=
  if request.hasSink = false then pure ()
  else do
    let t ← Prog.get
    Prog.modify fun t => { t with delivered := t.delivered ++ [event] }
    raiseFault (reply.emitError t.delivered.length)

def numberNext (event : AgentEvent) (t : Turn) : Turn :=
  { t with live := { t.live with sequence := t.live.sequence + 1 }, translated := t.translated ++ [event] }

def add (roundIndex : ℕ) (d : Draft) : Prog Turn Fault Unit := do
  let t ← Prog.get
  let event ← Prog.ofExcept
    (checkedEvent ⟨id, roundIndex, t.live.sequence, d.kind, d.turn, d.callId, d.toolName, d.content⟩)
  Prog.modify (numberNext event)
  deliver request reply event

def costOf (promptTokens completionTokens : ℕ) : ℚ≥0 :=
  match spec.priceUsdPerMtok with
  | none => 0
  | some price => (promptTokens * price.1 + completionTokens * price.2) / 1000000

def kindCount (kind : AgentEventKind) (drafts : List Draft) : ℕ := (drafts.filter (·.kind = kind)).length

def normalize (resumed : Bool) (r : HarnessResult) : Prog Turn Fault AgentSessionResult := do
  let before ← Prog.get
  let roundIndex := before.live.rounds - 1
  let drafts := r.events.filterMap (translate py)
  let promptTokens := (r.events.map fun raw => (tokensOf py raw).1).sum
  let completionTokens := (r.events.map fun raw => (tokensOf py raw).2).sum
  add id request reply roundIndex { kind := if resumed = true then .sessionResume else .sessionStart }
  Prog.forEach drafts (add id request reply roundIndex)
  add id request reply roundIndex { kind := .termination }
  let t ← Prog.get
  pure ⟨terminationFor r.finishReason, id, r.finalResponse, spec.model, costOf spec promptTokens completionTokens,
    kindCount .modelResponse drafts, kindCount .toolCall drafts, promptTokens, completionTokens, t.translated⟩

def failed (detail : Text) (roundIndex : ℕ) : Prog Turn Fault AgentSessionResult := do
  let event ← Prog.ofExcept (checkedEvent
    { sessionId := id, roundIndex, sequence := 0, kind := .termination, turn := 0, content := detail })
  deliver request reply event
  pure ⟨.backendError, id, detail, spec.model, 0, 0, 0, 0, 0, [event]⟩

end

/-- `_session_for`: a session stays in the directory it was started in. -/
def sessionFor (sessions : Sessions) (id : Text) (request : AgentSessionRequest) (reply : Reply) :
    Except Trouble LiveSession :=
  match sessions id with
  | some live =>
    if live.workdir ≠ request.workdir then
      .error (.exception ("DshBackendError: session ".toList ++ id ++ " is bound to ".toList ++ live.workdir ++
        ", cannot resume against ".toList ++ request.workdir))
    else .ok live
  | none =>
    match reply.launch with
    | some trouble => .error trouble
    | none => .ok { workdir := request.workdir }

def sessionIdOf (request : AgentSessionRequest) (reply : Reply) : Text :=
  match request.sessionId with
  | some (c :: cs) => c :: cs
  | _ => reply.freshId

structure Ended where
  outcome : Except Fault AgentSessionResult
  sessions : Sessions
  delivered : List AgentEvent := []

section
variable (spec : DshRuntimeSpec) (py : Builtins)

def reportFailure (sessions : Sessions) (request : AgentSessionRequest) (reply : Reply) (detail : Text)
    (roundIndex : ℕ) : Ended :=
  let ended := failed spec (sessionIdOf request reply) request reply detail roundIndex { live := { workdir := [] } }
  ⟨ended.1, sessions, ended.2.delivered⟩

def runRound (sessions : Sessions) (request : AgentSessionRequest) (reply : Reply) (live : LiveSession) :
    Ended :=
  let id := sessionIdOf request reply
  let begun := { live with rounds := live.rounds + 1 }
  let kept := Function.update sessions id (some begun)
  let resumed := decide (0 < live.rounds)
  match reply.answer (composePrompt request resumed) with
  | .error (.interrupt e) => ⟨.error e, kept, []⟩
  | .error (.exception detail) => reportFailure spec kept request reply detail live.rounds
  | .ok r =>
    let ended := normalize spec py id request reply resumed r { live := begun }
    ⟨ended.1, Function.update sessions id (some ended.2.live), ended.2.delivered⟩

def DshRuntimeSpec.run (sessions : Sessions) (request : AgentSessionRequest) (reply : Reply) : Ended :=
  match sessionFor sessions (sessionIdOf request reply) request reply with
  | .error (.interrupt e) => ⟨.error e, sessions, []⟩
  | .error (.exception detail) => reportFailure spec sessions request reply detail 0
  | .ok live => runRound spec py sessions request reply live

def releaseSession (sessions : Sessions) (id : Text) : Sessions := Function.update sessions id none

end
end EvoHarness.Core.Agent.Dsh
