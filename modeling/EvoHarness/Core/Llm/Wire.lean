import EvoHarness.Core.Agent.Queries
import EvoHarness.Core.Agent.Limits
import EvoHarness.Core.Llm.ParserErrors
import EvoHarness.Library.JsonAscii
import EvoHarness.Library.JsonNumbers
import EvoHarness.Library.JsonReading

/-! The conversation of a session as the two protocols carry it: what an endpoint gets with every query, and the calls
that are read back from it. -/
namespace EvoHarness.Core.Llm.Wire
open PyText PyData Traversal Parsers
open Agent (LLMMessage LLMToolResult NativeToolAgentBackend AgentSessionRequest Host Operation)

def role : LLMMessage → Text
  | .system _ => "system".toList
  | .user _ => "user".toList
  | .assistant _ _ => "assistant".toList
  | .tool _ => "tool".toList

def chatResult (result : LLMToolResult) : Data :=
  .object [("role".toList, .string "tool".toList), ("tool_call_id".toList, .string result.callId),
    ("content".toList, .string (if result.isError then "[tool_error]\n".toList ++ result.content else result.content))]

def chatCall (call : Agent.LLMToolCall) : Data :=
  .object [("id".toList, .string call.callId), ("type".toList, .string "function".toList),
    ("function".toList, .object [("name".toList, .string call.name),
      ("arguments".toList, .string (Json.dumpsCompact (.object call.arguments)))])]

def chatItems (message : LLMMessage) : List Data :=
  match message with
  | .tool results => results.map chatResult
  | .assistant content (call :: calls) =>
    [.object [("role".toList, .string "assistant".toList),
      ("content".toList, if content = [] then .null else .string content),
      ("tool_calls".toList, .array ((call :: calls).map chatCall))]]
  | _ => [.object [("role".toList, .string (role message)), ("content".toList, .string message.content)]]

def openaiMessages (messages : List LLMMessage) : List Data := messages.flatMap chatItems

def responsesResult (result : LLMToolResult) : Data :=
  .object [("type".toList, .string "function_call_output".toList), ("call_id".toList, .string result.callId),
    ("output".toList, .string result.content)]

def responsesCall (call : Agent.LLMToolCall) : Data :=
  .object [("type".toList, .string "function_call".toList), ("call_id".toList, .string call.callId),
    ("name".toList, .string call.name), ("arguments".toList, .string (Json.dumpsAscii (.object call.arguments)))]

def responsesRole (message : LLMMessage) : Text :=
  match message with
  | .system _ => "developer".toList
  | _ => role message

def responsesItems (message : LLMMessage) : List Data :=
  match message with
  | .tool results => results.map responsesResult
  | _ =>
    (if message.content = [] then []
      else [.object [("role".toList, .string (responsesRole message)), ("content".toList, .string message.content)]]) ++
    message.toolCalls.map responsesCall

def responsesInput (messages : List LLMMessage) : List Data := messages.flatMap responsesItems

def answered (waiting : List Text) : Data → Option (List Text)
  | .string id => if id ∈ waiting then some (waiting.erase id) else none
  | _ => none

def callIds : Data → List Text
  | .array calls => calls.filterMap fun call =>
    match get (members call) "id".toList with
    | .string id => some id
    | _ => none
  | _ => []

def chatFollow (waiting : List Text) (item : Data) : Option (List Text) :=
  if isText "tool".toList (get (members item) "role".toList) then
    answered waiting (get (members item) "tool_call_id".toList)
  else if waiting = [] then some (callIds (get (members item) "tool_calls".toList))
  else none

def responsesFollow (waiting : List Text) (item : Data) : Option (List Text) :=
  if isText "function_call".toList (get (members item) "type".toList) then
    match get (members item) "call_id".toList with
    | .string id => some (waiting ++ [id])
    | _ => none
  else if isText "function_call_output".toList (get (members item) "type".toList) then
    answered waiting (get (members item) "call_id".toList)
  else if waiting = [] then some []
  else none

def Accepted (follow : List Text → Data → Option (List Text)) (items : List Data) : Prop :=
  items.foldlM follow [] = some []

inductive Exchanges : List LLMMessage → Prop
  | nil : Exchanges []
  | plain {m : LLMMessage} {ms : List LLMMessage} (hm : Agent.IsPlain m) (h : Exchanges ms) : Exchanges (m :: ms)
  | answered {content : Text} {calls : List Agent.LLMToolCall} {results : List LLMToolResult} {ms : List LLMMessage}
      (hne : calls ≠ []) (hids : results.map (·.callId) = calls.map (·.callId)) (h : Exchanges ms) :
      Exchanges (.assistant content calls :: .tool results :: ms)

theorem paired_plain_tail {m : LLMMessage} {ms : List LLMMessage} (hm : Agent.IsPlain m) (h : Agent.Paired (m :: ms)) :
    Agent.Paired ms := by
  refine ⟨fun i content calls hi hne => h.1 (i + 1) content calls hi hne, fun i results hi => ?_⟩
  obtain ⟨j, content, calls, hij, hj, hne⟩ := h.2 (i + 1) results hi
  obtain rfl : i = j := Nat.succ.inj hij
  cases i with
  | zero =>
    obtain rfl : m = .assistant content calls := Option.some.inj hj
    exact absurd hm hne
  | succ i => exact ⟨i, content, calls, rfl, hj, hne⟩

theorem paired_answered_tail {content : Text} {calls : List Agent.LLMToolCall} {results : List LLMToolResult}
    {ms : List LLMMessage} (h : Agent.Paired (.assistant content calls :: .tool results :: ms)) : Agent.Paired ms := by
  refine ⟨fun i content calls hi hne => h.1 (i + 2) content calls hi hne, fun i results' hi => ?_⟩
  obtain ⟨j, content', calls', hij, hj, hne⟩ := h.2 (i + 2) results' hi
  obtain rfl : i + 1 = j := Nat.succ.inj hij
  cases i with
  | zero => exact nomatch Option.some.inj hj
  | succ i => exact ⟨i, content', calls', rfl, hj, hne⟩

theorem exchanges_of_paired (n : ℕ) (ms : List LLMMessage) (hn : ms.length ≤ n) (h : Agent.Paired ms) : Exchanges ms := by
  induction n generalizing ms with
  | zero =>
    obtain rfl : ms = [] := List.length_eq_zero_iff.mp (Nat.le_zero.mp hn)
    exact .nil
  | succ n ih =>
    cases ms with
    | nil => exact .nil
    | cons m ms =>
      have hlength : ms.length ≤ n := Nat.le_of_succ_le_succ hn
      have hplain (hm : Agent.IsPlain m) : Exchanges (m :: ms) := .plain hm (ih ms hlength (paired_plain_tail hm h))
      cases m with
      | system content => exact hplain trivial
      | user content => exact hplain trivial
      | tool results =>
        obtain ⟨j, -, -, hij, -⟩ := h.2 0 results rfl
        exact absurd hij (Nat.succ_ne_zero j).symm
      | assistant content calls =>
        by_cases hcalls : calls = []
        · exact hplain hcalls
        · obtain ⟨results, hr, hids⟩ := h.1 0 content calls rfl hcalls
          cases ms with
          | nil => exact nomatch hr
          | cons next rest =>
            obtain rfl : next = .tool results := Option.some.inj hr
            exact .answered hcalls hids (ih rest (Nat.le_of_succ_le hlength) (paired_answered_tail h))

theorem answered_head (id : Text) (waiting : List Text) : answered (id :: waiting) (.string id) = some waiting := by
  rw [answered, if_pos List.mem_cons_self, List.erase_cons_head]

theorem chatFollow_result (result : LLMToolResult) (waiting : List Text) :
    chatFollow (result.callId :: waiting) (chatResult result) = some waiting := answered_head result.callId waiting

theorem responsesFollow_result (result : LLMToolResult) (waiting : List Text) :
    responsesFollow (result.callId :: waiting) (responsesResult result) = some waiting := answered_head result.callId waiting

theorem responsesFollow_call (call : Agent.LLMToolCall) (waiting : List Text) :
    responsesFollow waiting (responsesCall call) = some (waiting ++ [call.callId]) := rfl

theorem follow_results {follow : List Text → Data → Option (List Text)} {item : LLMToolResult → Data}
    (hfollow : ∀ result waiting, follow (result.callId :: waiting) (item result) = some waiting)
    (results : List LLMToolResult) : (results.map item).foldlM follow (results.map (·.callId)) = some [] := by
  induction results with
  | nil => rfl
  | cons result results ih =>
    rw [List.map_cons, List.map_cons, List.foldlM_cons, hfollow]
    exact ih

theorem follow_calls (calls : List Agent.LLMToolCall) (waiting : List Text) :
    (calls.map responsesCall).foldlM responsesFollow waiting = some (waiting ++ calls.map (·.callId)) := by
  induction calls generalizing waiting with
  | nil => simp
  | cons call calls ih =>
    rw [List.map_cons, List.foldlM_cons, responsesFollow_call]
    refine (ih _).trans ?_
    rw [List.append_assoc, List.map_cons, List.singleton_append]

theorem callIds_calls (calls : List Agent.LLMToolCall) : callIds (.array (calls.map chatCall)) = calls.map (·.callId) := by
  rw [callIds, List.filterMap_map]
  exact List.filterMap_eq_map (f := fun call : Agent.LLMToolCall => call.callId) ▸ rfl

theorem chatItems_plain {m : LLMMessage} (hm : Agent.IsPlain m) : (chatItems m).foldlM chatFollow [] = some [] := by
  cases m with
  | system content => rfl
  | user content => rfl
  | tool results => exact hm.elim
  | assistant content calls =>
    obtain rfl : calls = [] := hm
    rfl

theorem responsesItems_said {m : LLMMessage} (hm : ∀ results, m ≠ .tool results) :
    (responsesItems m).foldlM responsesFollow [] = some (m.toolCalls.map (·.callId)) := by
  have hitems : responsesItems m = (if m.content = [] then [] else [.object [("role".toList, .string (responsesRole m)),
      ("content".toList, .string m.content)]]) ++ m.toolCalls.map responsesCall := by
    cases m with
    | tool results => exact absurd rfl (hm results)
    | system content => rfl
    | user content => rfl
    | assistant content calls => rfl
  rw [hitems, List.foldlM_append]
  split
  · exact follow_calls _ _
  · exact follow_calls _ _

theorem chat_accepted {ms : List LLMMessage} (h : Exchanges ms) : Accepted chatFollow (openaiMessages ms) := by
  unfold Accepted openaiMessages
  induction h with
  | nil => rfl
  | plain hm h ih =>
    rw [List.flatMap_cons, List.foldlM_append, chatItems_plain hm]
    exact ih
  | @answered content calls results ms hne hids h ih =>
    obtain ⟨call, calls, rfl⟩ := List.exists_cons_of_ne_nil hne
    rw [List.flatMap_cons, List.flatMap_cons, List.foldlM_append]
    have hcalls : (chatItems (.assistant content (call :: calls))).foldlM chatFollow [] =
        some (results.map (·.callId)) := by
      rw [hids, ← callIds_calls]
      rfl
    rw [hcalls]
    show ((results.map chatResult ++ ms.flatMap chatItems).foldlM chatFollow (results.map (·.callId))) = some []
    rw [List.foldlM_append, follow_results chatFollow_result]
    exact ih

theorem responses_accepted {ms : List LLMMessage} (h : Exchanges ms) : Accepted responsesFollow (responsesInput ms) := by
  unfold Accepted responsesInput
  induction h with
  | nil => rfl
  | @plain m ms hm h ih =>
    have hcalls : m.toolCalls = [] := by
      cases m with
      | system content => rfl
      | user content => rfl
      | tool results => exact hm.elim
      | assistant content calls => exact hm
    have htool : ∀ results, m ≠ .tool results := fun results hresults => (hresults ▸ hm : Agent.IsPlain (.tool results)).elim
    rw [List.flatMap_cons, List.foldlM_append, responsesItems_said htool, hcalls]
    exact ih
  | @answered content calls results ms hne hids h ih =>
    rw [List.flatMap_cons, List.flatMap_cons, List.foldlM_append, responsesItems_said fun _ h => LLMMessage.noConfusion h]
    show ((results.map responsesResult ++ ms.flatMap responsesItems).foldlM responsesFollow (calls.map (·.callId))) = some []
    rw [List.foldlM_append, ← hids, follow_results responsesFollow_result]
    exact ih

section
variable {b : NativeToolAgentBackend} {env : ℕ → Agent.Reply} {limits : Agent.AgentSessionLimits}

theorem turnAsked_wellKept {w : Agent.World} (hw : Agent.WellKept w.session) :
    ∀ a ∈ Agent.turnAsked b env limits w, Agent.WellKept a.world.session := by
  intro a ha
  obtain ⟨w', hpassed, rfl⟩ := Agent.mem_turnAsked ha
  have h := Agent.admission_keeps b env limits w hw
  rw [hpassed] at h
  exact h

theorem roundsAsked_wellKept (fuel : ℕ) {w : Agent.World} (hw : Agent.WellKept w.session) :
    ∀ a ∈ Agent.roundsAsked b env limits fuel w, Agent.WellKept a.world.session := by
  induction fuel generalizing w with
  | zero => exact fun a ha => by cases ha
  | succ fuel ih =>
    intro a ha
    rw [Agent.roundsAsked] at ha
    rcases List.mem_append.mp ha with hnow | hlater
    · exact turnAsked_wellKept hw a hnow
    · have hturn := Agent.turn_keeps b env limits w hw
      split at hlater
      · next w' hw' =>
        rw [hw'] at hturn
        exact ih hturn a hlater
      · cases hlater

theorem sessionAsked_wellKept {opened : Agent.AgentEventKind} {fuel : ℕ} {w : Agent.World}
    (hw : Agent.WellKept w.session) : ∀ a ∈ Agent.sessionAsked b env limits opened fuel w, Agent.WellKept a.world.session := by
  intro a ha
  unfold Agent.sessionAsked at ha
  have hopened := Agent.recordEvent_keeps env opened none none [] w hw
  split at ha
  · next w' hw' =>
    rw [hw'] at hopened
    split at ha
    · exact roundsAsked_wellKept fuel hopened a ha
    · exact nomatch ha
  · exact nomatch ha

theorem queries_wellKept {host : Host} (hs : ∀ s ∈ host.sessions, Agent.WellKept s) (request : AgentSessionRequest)
    (fuel : ℕ) : ∀ a ∈ host.queries b env request fuel, Agent.WellKept a.world.session := by
  intro a ha
  unfold Agent.Host.queries at ha
  split at ha
  · exact nomatch ha
  · next s hopen => exact sessionAsked_wellKept (Agent.openSession_wellKept b hs hopen) a ha

theorem host_wellKept (ops : List Operation) {host : Host} (hs : ∀ s ∈ host.sessions, Agent.WellKept s) :
    ∀ s ∈ (ops.foldl (Host.operate b env) host).sessions, Agent.WellKept s := by
  induction ops generalizing host with
  | nil => exact hs
  | cons op ops ih => exact ih (Host.operate_wellKept b env hs op)

end

/-- Whatever tools, models and other sessions do, an endpoint of either protocol gets a conversation with every query in
which each call is answered once, before anything else is said. -/
theorem queries_accepted (b : NativeToolAgentBackend) (env : ℕ → Agent.Reply) (ops : List Operation)
    (request : AgentSessionRequest) (fuel : ℕ) (whole : ℚ≥0 → Text) (a : Agent.Asked)
    (ha : a ∈ (ops.foldl (Host.operate b env) {}).queries b env request fuel) :
    Accepted chatFollow (openaiMessages (Agent.messagesWithBudget whole request.limits a.world)) ∧
      Accepted responsesFollow (responsesInput (Agent.messagesWithBudget whole request.limits a.world)) := by
  have hkept := queries_wellKept (host_wellKept ops fun _ hs => absurd hs List.not_mem_nil) request fuel a ha
  have hpaired : Agent.Paired (Agent.messagesWithBudget whole request.limits a.world) :=
    hkept.present.append (Agent.paired_singleton trivial)
  have hexchanges := exchanges_of_paired _ _ le_rfl hpaired
  exact ⟨chat_accepted hexchanges, responses_accepted hexchanges⟩

def saysResults : LLMMessage → Bool
  | .tool _ => true
  | _ => false

theorem exists_results {ms : List LLMMessage} (h : ms.any saysResults = true) : ∃ results, .tool results ∈ ms := by
  obtain ⟨m, hm, hresults⟩ := List.any_eq_true.mp h
  cases m with
  | tool results => exact ⟨results, hm⟩
  | _ => cases hresults

theorem queries_accepted_tool :
    ∃ a ∈ ([].foldl (Host.operate Agent.oneTool Agent.opensThenCalls) {}).queries Agent.oneTool Agent.opensThenCalls
        Agent.enough 6,
      (∃ results, .tool results ∈ Agent.messagesWithBudget (fun _ => "5".toList) Agent.enough.limits a.world) ∧
        Accepted chatFollow (openaiMessages (Agent.messagesWithBudget (fun _ => "5".toList) Agent.enough.limits a.world)) ∧
          Accepted responsesFollow
            (responsesInput (Agent.messagesWithBudget (fun _ => "5".toList) Agent.enough.limits a.world)) := by
  have hcalled : (([].foldl (Host.operate Agent.oneTool Agent.opensThenCalls) {}).queries Agent.oneTool Agent.opensThenCalls
      Agent.enough 6).any (fun a => (Agent.messagesWithBudget (fun _ => "5".toList) Agent.enough.limits a.world).any
        saysResults) = true := by decide +kernel
  obtain ⟨a, ha, hresults⟩ := List.any_eq_true.mp hcalled
  exact ⟨a, ha, exists_results hresults, queries_accepted Agent.oneTool Agent.opensThenCalls [] Agent.enough 6 _ _ ha⟩

section
variable (num : Json.Numeral → Data)

mutual

/-- The value `json.loads` gives, once its numbers are read. -/
def ofValue : Json.Value → Data
  | .null => .null
  | .bool b => .bool b
  | .number n => num n
  | .string s => .string s
  | .array xs => .array (ofItems xs)
  | .object ps => .object (ofMembers ps)

def ofItems : List Json.Value → List Data
  | [] => []
  | x :: xs => ofValue x :: ofItems xs

def ofMembers : List (Text × Json.Value) → List (Text × Data)
  | [] => []
  | (k, x) :: ps => (k, ofValue x) :: ofMembers ps

end

/-- Python reads this value: it has no number with too many digits, and does not nest too deep. -/
def Readable (py : Builtins) (x : Json.Value) : Prop := ∀ t, Json.loads t = some x → py.loads t = .ok (ofValue num x)

/-- What a call passed when it was made, and that its arguments are a dict which is read in either order. -/
structure Proper (py : Builtins) (call : Agent.LLMToolCall) : Prop where
  id : strip call.callId ≠ []
  name : isToolName call.name = true
  distinct : Json.Distinct (.object call.arguments)
  readable : Readable num py (.object call.arguments)
  sorted : Readable num py (Json.sorted (.object call.arguments))

def received (arguments : Json.Value) (call : Agent.LLMToolCall) : LLMToolCall :=
  ⟨call.callId, call.name, members (ofValue num arguments)⟩

def chatReceived (call : Agent.LLMToolCall) : LLMToolCall := received num (Json.sorted (.object call.arguments)) call

def responsesReceived (call : Agent.LLMToolCall) : LLMToolCall := received num (.object call.arguments) call

variable {num} {py : Builtins} {call : Agent.LLMToolCall}

theorem toolCall_read (hcall : Proper num py call) {t : Text} {ps : List (Text × Json.Value)}
    (hload : Json.loads t = some (.object ps)) (hread : Readable num py (.object ps)) :
    toolCall py (.string call.callId) (.string call.name) (.string t) = .ok (received num (.object ps) call) := by
  have hloads : loads py t = .ok (.object (ofMembers num ps)) := by
    rw [loads, hread t hload]
    rfl
  unfold toolCall
  dsimp only
  rw [hloads]
  change LLMToolCall.make (.string call.callId) (.string call.name) (.object (ofMembers num ps)) = _
  unfold LLMToolCall.make
  dsimp only
  rw [if_neg hcall.id, if_neg (by rw [hcall.name]; decide)]
  rfl

theorem readCall_chatCall (hcall : Proper num py call) (index : ℕ) :
    readCall py index (chatCall call) = .ok (chatReceived num call) := by
  have hload := Json.loads_dumpsCompact hcall.distinct ⟨_, rfl⟩
  have hread := toolCall_read hcall hload hcall.sorted
  show atIndex index (toolCall py (.string call.callId) (.string call.name)
    (.string (Json.dumpsCompact (.object call.arguments)))) = _
  rw [hread]
  rfl

theorem readItem_responsesCall (hcall : Proper num py call) (index : ℕ) :
    readItem py index (responsesCall call) = .ok { calls := [responsesReceived num call] } := by
  have hload := Json.loads_dumpsAscii hcall.distinct ⟨_, rfl⟩
  have hread := toolCall_read hcall hload hcall.readable
  show (do
    let call ← atIndex index (toolCall py (.string call.callId) (.string call.name)
      (.string (Json.dumpsAscii (.object call.arguments))))
    return ({ calls := [call] } : Collected)) = _
  rw [hread]
  rfl

variable (num)

def readMessage (py : Builtins) (_ : ℕ) (message : Data) : Except ParseError (List LLMToolCall) :=
  parseOpenaiToolCalls py (members message)

def chatRead (m : LLMMessage) : List (List LLMToolCall) :=
  match m with
  | .tool results => results.map fun _ => []
  | _ => [m.toolCalls.map (chatReceived num)]

def collected (call : Agent.LLMToolCall) : Collected := { calls := [responsesReceived num call] }

def responsesRead (m : LLMMessage) : List Collected :=
  match m with
  | .tool results => results.map fun _ => {}
  | _ => (if m.content = [] then [] else [{}]) ++ m.toolCalls.map (collected num)

variable {num} {m : LLMMessage}

theorem chatRead_calls (m : LLMMessage) : (chatRead num m).flatten = m.toolCalls.map (chatReceived num) := by
  cases m with
  | tool results => exact List.flatten_eq_nil_iff.mpr fun read hread => (List.mem_map.mp hread).choose_spec.2.symm
  | system content => exact List.append_nil _
  | user content => exact List.append_nil _
  | assistant content calls => exact List.append_nil _

theorem responsesRead_calls (m : LLMMessage) :
    (responsesRead num m).flatMap (·.calls) = m.toolCalls.map (responsesReceived num) := by
  have hsaid (said : Prop) [Decidable said] (calls : List Agent.LLMToolCall) :
      ((if said then [] else [({} : Collected)]) ++ calls.map (collected num)).flatMap (·.calls) =
        calls.map (responsesReceived num) := by
    have hcalls : (calls.map (collected num)).flatMap (·.calls) = calls.map (responsesReceived num) := by
      rw [List.flatMap_map]
      exact List.map_eq_flatMap.symm
    rw [List.flatMap_append, hcalls]
    split
    · rfl
    · rfl
  cases m with
  | tool results =>
    refine List.flatMap_eq_nil_iff.mpr fun read hread => ?_
    obtain ⟨-, -, rfl⟩ := List.mem_map.mp hread
    rfl
  | system content => exact hsaid _ []
  | user content => exact hsaid _ []
  | assistant content calls => exact hsaid _ calls

theorem chatItems_read (hm : ∀ call ∈ m.toolCalls, Proper num py call) :
    List.Forall₂ (fun item read => ∀ i : ℕ, readMessage py i item = .ok read) (chatItems m) (chatRead num m) := by
  have hplain (item : Data) (h : get (members item) "tool_calls".toList = .null) (i : ℕ) : readMessage py i item = .ok [] := by
    rw [readMessage, parseOpenaiToolCalls, h]
  cases m with
  | system content => exact .cons (hplain _ rfl) .nil
  | user content => exact .cons (hplain _ rfl) .nil
  | tool results =>
    rw [chatItems, chatRead, List.forall₂_map_left_iff, List.forall₂_map_right_iff, List.forall₂_same]
    exact fun result _ => hplain _ rfl
  | assistant content calls =>
    cases calls with
    | nil => exact .cons (hplain _ rfl) .nil
    | cons call calls =>
      refine .cons (fun i => ?_) .nil
      show gather (readCall py) 0 ((call :: calls).map chatCall) = .ok ((call :: calls).map (chatReceived num))
      refine gather_of_forall₂ ?_ 0
      rw [List.forall₂_map_left_iff, List.forall₂_map_right_iff, List.forall₂_same]
      exact fun c hc i => readCall_chatCall (hm c hc) i

theorem responsesItems_read (hm : ∀ call ∈ m.toolCalls, Proper num py call) :
    List.Forall₂ (fun item read => ∀ i : ℕ, readItem py i item = .ok read) (responsesItems m) (responsesRead num m) := by
  have hcalls (calls : List Agent.LLMToolCall) (hcalls : ∀ call ∈ calls, Proper num py call) :
      List.Forall₂ (fun item read => ∀ i : ℕ, readItem py i item = .ok read) (calls.map responsesCall)
        (calls.map (collected num)) := by
    rw [List.forall₂_map_left_iff, List.forall₂_map_right_iff, List.forall₂_same]
    exact fun call hcall i => readItem_responsesCall (hcalls call hcall) i
  have hsaid (r content : Text) (calls : List Agent.LLMToolCall) (h : ∀ call ∈ calls, Proper num py call) :
      List.Forall₂ (fun item read => ∀ i : ℕ, readItem py i item = .ok read)
        ((if content = [] then [] else [.object [("role".toList, .string r), ("content".toList, .string content)]]) ++
          calls.map responsesCall)
        ((if content = [] then [] else [({} : Collected)]) ++ calls.map (collected num)) := by
    refine List.rel_append ?_ (hcalls calls h)
    split
    · exact .nil
    · exact .cons (fun i => rfl) .nil
  cases m with
  | system content => exact hsaid _ content [] hm
  | user content => exact hsaid _ content [] hm
  | tool results =>
    change List.Forall₂ _ (results.map responsesResult) (results.map fun _ => ({} : Collected))
    rw [List.forall₂_map_left_iff, List.forall₂_map_right_iff, List.forall₂_same]
    exact fun result _ i => rfl
  | assistant content calls => exact hsaid _ content calls hm

end

theorem forall₂_flatMap {α β γ : Type} {R : β → γ → Prop} {f : α → List β} {g : α → List γ} {xs : List α}
    (h : ∀ x ∈ xs, List.Forall₂ R (f x) (g x)) : List.Forall₂ R (xs.flatMap f) (xs.flatMap g) := by
  induction xs with
  | nil => exact .nil
  | cons x xs ih =>
    rw [List.forall_mem_cons] at h
    exact List.rel_append h.1 (ih h.2)

/-- A conversation in the words of either protocol is read by the parser of that protocol as the calls it has, in order
and with their arguments: in the order of their keys for chats, and as they are for responses. -/
theorem calls_come_back (num : Json.Numeral → Data) (py : Builtins) (ms : List LLMMessage)
    (hproper : ∀ m ∈ ms, ∀ call ∈ m.toolCalls, Proper num py call) :
    (∃ read, gather (readMessage py) 0 (openaiMessages ms) = .ok read ∧
      read.flatten = (ms.flatMap (·.toolCalls)).map (chatReceived num)) ∧
    ∃ read, gather (readItem py) 0 (responsesInput ms) = .ok read ∧
      read.flatMap (·.calls) = (ms.flatMap (·.toolCalls)).map (responsesReceived num) := by
  refine ⟨⟨ms.flatMap (chatRead num), gather_of_forall₂ (forall₂_flatMap fun m hm => chatItems_read (hproper m hm)) 0, ?_⟩,
    ⟨ms.flatMap (responsesRead num),
      gather_of_forall₂ (forall₂_flatMap fun m hm => responsesItems_read (hproper m hm)) 0, ?_⟩⟩
  · induction ms with
    | nil => rfl
    | cons m ms ih =>
      rw [List.flatMap_cons, List.flatMap_cons, List.flatten_append, chatRead_calls, List.map_append,
        ih fun m' hm' => hproper m' (List.mem_cons_of_mem m hm')]
  · induction ms with
    | nil => rfl
    | cons m ms ih =>
      rw [List.flatMap_cons, List.flatMap_cons, List.flatMap_append, responsesRead_calls, List.map_append,
        ih fun m' hm' => hproper m' (List.mem_cons_of_mem m hm')]

def jsonPython : Builtins :=
  { plainPython with
    loads := fun t =>
      match Json.loads t with
      | some x => .ok (ofValue (fun n => .float (.finite n.value)) x)
      | none => .error (.valueError "Expecting value".toList) }

def reads : List LLMMessage :=
  [.assistant [] [⟨"c1".toList, "read".toList, [("path".toList, .string "a".toList), ("at".toList, .null)]⟩],
    .tool [⟨"c1".toList, "b".toList, false⟩]]

theorem calls_come_back_read :
    (∃ read, gather (readMessage jsonPython) 0 (openaiMessages reads) = .ok read ∧
      read.flatten = (reads.flatMap (·.toolCalls)).map (chatReceived fun n => .float (.finite n.value))) ∧
    ∃ read, gather (readItem jsonPython) 0 (responsesInput reads) = .ok read ∧
      read.flatMap (·.calls) = (reads.flatMap (·.toolCalls)).map (responsesReceived fun n => .float (.finite n.value)) := by
  refine calls_come_back (fun n => .float (.finite n.value)) jsonPython reads fun m hm call hcall => ?_
  have hreads (x : Json.Value) : Readable (fun n => .float (.finite n.value)) jsonPython x := fun t ht => by
    unfold jsonPython
    dsimp only
    rw [ht]
  have hcalls : call ∈ reads.flatMap (·.toolCalls) := List.mem_flatMap.mpr ⟨m, hm, hcall⟩
  obtain rfl : call = ⟨"c1".toList, "read".toList, [("path".toList, .string "a".toList), ("at".toList, .null)]⟩ :=
    List.mem_singleton.mp hcalls
  exact ⟨by decide, by decide, ⟨by decide, trivial, trivial, trivial⟩, hreads _, hreads _⟩

end EvoHarness.Core.Llm.Wire
