import EvoHarness.Core.Agent.Runtime

/-! The conversation of a session: every group of tool calls is answered where it stands, and
compaction changes nothing but the contents of results. -/
namespace EvoHarness.Core.Agent
open PyText Hoare

/-- Every assistant message with tool calls is followed by one tool message with results for the same
ids in the same order, and every tool message follows such an assistant message. -/
def Paired (messages : List LLMMessage) : Prop :=
  (∀ i content calls, messages[i]? = some (.assistant content calls) → calls ≠ [] →
    ∃ results, messages[i + 1]? = some (.tool results) ∧ results.map (·.callId) = calls.map (·.callId)) ∧
  ∀ i results, messages[i]? = some (.tool results) →
    ∃ j content calls, i = j + 1 ∧ messages[j]? = some (.assistant content calls) ∧ calls ≠ []

inductive MessageShape where
  | system
  | user
  | assistant (callIds : List Text)
  | tool (results : List (Text × Bool))

def shape : LLMMessage → MessageShape
  | .system _ => .system
  | .user _ => .user
  | .assistant _ calls => .assistant (calls.map (·.callId))
  | .tool results => .tool (results.map fun r => (r.callId, r.isError))

/-- Of a session: every conversation it has had was well formed, the present one is the latest, and
each one that compaction made has the shape of the one before it. -/
structure WellKept (s : SessionState) : Prop where
  current : ∃ compacting past, s.versions = (compacting, s.messages) :: past
  paired : ∀ v ∈ s.versions, Paired v.2
  kept : s.versions.IsChain fun newer older => newer.1 = true → newer.2.map shape = older.2.map shape

theorem Paired.append {xs ys : List LLMMessage} (hx : Paired xs) (hy : Paired ys) : Paired (xs ++ ys) := by
  constructor
  · intro i content calls hi hne
    by_cases hlt : i < xs.length
    · rw [List.getElem?_append_left hlt] at hi
      obtain ⟨results, hr, hids⟩ := hx.1 i content calls hi hne
      have hlt' : i + 1 < xs.length := (List.getElem?_eq_some_iff.mp hr).1
      exact ⟨results, by rw [List.getElem?_append_left hlt']; exact hr, hids⟩
    · rw [List.getElem?_append_right (by omega)] at hi
      obtain ⟨results, hr, hids⟩ := hy.1 _ content calls hi hne
      refine ⟨results, ?_, hids⟩
      rw [List.getElem?_append_right (by omega), show i + 1 - xs.length = i - xs.length + 1 by omega]
      exact hr
  · intro i results hi
    by_cases hlt : i < xs.length
    · rw [List.getElem?_append_left hlt] at hi
      obtain ⟨j, content, calls, hij, hj, hne⟩ := hx.2 i results hi
      exact ⟨j, content, calls, hij, by rw [List.getElem?_append_left (by omega)]; exact hj, hne⟩
    · rw [List.getElem?_append_right (by omega)] at hi
      obtain ⟨j, content, calls, hij, hj, hne⟩ := hy.2 _ results hi
      refine ⟨xs.length + j, content, calls, by omega, ?_, hne⟩
      rw [List.getElem?_append_right (by omega), show xs.length + j - xs.length = j by omega]
      exact hj

def IsPlain : LLMMessage → Prop
  | .system _ => True
  | .user _ => True
  | .assistant _ calls => calls = []
  | .tool _ => False

theorem paired_singleton {m : LLMMessage} (hm : IsPlain m) : Paired [m] := by
  constructor
  · intro i content calls hi hne
    obtain ⟨hlt, heq⟩ := List.getElem?_eq_some_iff.mp hi
    have h0 : i = 0 := by simpa using hlt
    subst h0
    have hmeq : m = .assistant content calls := heq
    subst hmeq
    exact absurd hm hne
  · intro i results hi
    obtain ⟨hlt, heq⟩ := List.getElem?_eq_some_iff.mp hi
    have h0 : i = 0 := by simpa using hlt
    subst h0
    have hmeq : m = .tool results := heq
    subst hmeq
    exact hm.elim

theorem paired_exchange {content : Text} {calls : List LLMToolCall} {results : List LLMToolResult}
    (hne : calls ≠ []) (hids : calls.map (·.callId) = results.map (·.callId)) :
    Paired [.assistant content calls, .tool results] := by
  constructor
  · intro i content' calls' hi _
    cases i with
    | zero =>
      have heq : LLMMessage.assistant content calls = .assistant content' calls' := Option.some.inj hi
      injection heq with _ hcalls
      exact ⟨results, rfl, by rw [← hcalls, hids]⟩
    | succ i =>
      cases i with
      | zero => exact nomatch Option.some.inj hi
      | succ i => exact nomatch hi
  · intro i results' hi
    cases i with
    | zero => exact nomatch Option.some.inj hi
    | succ i =>
      cases i with
      | zero => exact ⟨0, content, calls, rfl, rfl, hne⟩
      | succ i => exact nomatch hi

theorem shape_assistant {m : LLMMessage} {ids : List Text} (h : shape m = .assistant ids) :
    ∃ content calls, m = .assistant content calls ∧ calls.map (·.callId) = ids := by
  cases m with
  | assistant content calls =>
    injection h with hids
    exact ⟨content, calls, rfl, hids⟩
  | system content => exact nomatch h
  | user content => exact nomatch h
  | tool results => exact nomatch h

theorem shape_tool {m : LLMMessage} {rs : List (Text × Bool)} (h : shape m = .tool rs) :
    ∃ results, m = .tool results ∧ results.map (fun r => (r.callId, r.isError)) = rs := by
  cases m with
  | tool results =>
    injection h with hrs
    exact ⟨results, rfl, hrs⟩
  | system content => exact nomatch h
  | user content => exact nomatch h
  | assistant content calls => exact nomatch h

theorem getElem_of_shape {xs ys : List LLMMessage} (h : xs.map shape = ys.map shape) {i : ℕ} {m : LLMMessage}
    (hi : ys[i]? = some m) : ∃ m', xs[i]? = some m' ∧ shape m' = shape m := by
  have hmap : (xs.map shape)[i]? = some (shape m) := by rw [h, List.getElem?_map, hi]; rfl
  rw [List.getElem?_map] at hmap
  exact Option.map_eq_some_iff.mp hmap

theorem ids_of_pairs {xs ys : List LLMToolResult}
    (h : xs.map (fun r => (r.callId, r.isError)) = ys.map fun r => (r.callId, r.isError)) :
    xs.map (·.callId) = ys.map (·.callId) := by
  have hfst := congrArg (List.map Prod.fst) h
  simpa only [List.map_map, Function.comp_def] using hfst

theorem paired_of_shape {xs ys : List LLMMessage} (h : xs.map shape = ys.map shape) (hx : Paired xs) :
    Paired ys := by
  constructor
  · intro i content calls hi hne
    obtain ⟨m, hm, hshape⟩ := getElem_of_shape h hi
    obtain ⟨content', calls', rfl, hids⟩ := shape_assistant hshape
    have hne' : calls' ≠ [] := by
      intro hnil
      rw [hnil] at hids
      exact hne (List.map_eq_nil_iff.mp hids.symm)
    obtain ⟨results, hr, hrids⟩ := hx.1 i content' calls' hm hne'
    obtain ⟨m', hm', hshape'⟩ := getElem_of_shape h.symm hr
    obtain ⟨results', rfl, hpairs⟩ := shape_tool hshape'
    exact ⟨results', hm', by rw [ids_of_pairs hpairs, hrids, hids]⟩
  · intro i results hi
    obtain ⟨m, hm, hshape⟩ := getElem_of_shape h hi
    obtain ⟨results', rfl, _⟩ := shape_tool hshape
    obtain ⟨j, content, calls, hij, hj, hne⟩ := hx.2 i results' hm
    obtain ⟨m', hm', hshape'⟩ := getElem_of_shape h.symm hj
    obtain ⟨content', calls', rfl, hids⟩ := shape_assistant hshape'
    refine ⟨j, content', calls', hij, hm', fun hnil => ?_⟩
    rw [hnil] at hids
    exact hne (List.map_eq_nil_iff.mp hids.symm)

theorem WellKept.present {s : SessionState} (hs : WellKept s) : Paired s.messages := by
  obtain ⟨compacting, past, hv⟩ := hs.current
  exact hs.paired (compacting, s.messages) (by rw [hv]; exact List.mem_cons_self)

theorem WellKept.withMessages {s : SessionState} {compacting : Bool} {messages : List LLMMessage}
    (hs : WellKept s) (hm : Paired messages)
    (hkept : compacting = true → messages.map shape = s.messages.map shape) :
    WellKept (s.withMessages compacting messages) := by
  obtain ⟨compacting', past, hv⟩ := hs.current
  refine ⟨⟨compacting, s.versions, rfl⟩, ?_, ?_⟩
  · intro v hv'
    cases List.mem_cons.mp hv' with
    | inl heq => rw [heq]; exact hm
    | inr hmem => exact hs.paired v hmem
  · have hchain := hs.kept
    show ((compacting, messages) :: s.versions).IsChain _
    rw [hv] at hchain ⊢
    exact List.IsChain.cons_cons hkept hchain

theorem WellKept.append {s : SessionState} {new : List LLMMessage} (hs : WellKept s) (hnew : Paired new) :
    WellKept (s.withMessages false (s.messages ++ new)) :=
  hs.withMessages (hs.present.append hnew) nofun

theorem WellKept.congr {s t : SessionState} (hs : WellKept s) (hm : t.messages = s.messages)
    (hv : t.versions = s.versions) : WellKept t := by
  obtain ⟨hcur, hp, hk⟩ := hs
  exact ⟨by rw [hm, hv]; exact hcur, by rw [hv]; exact hp, by rw [hv]; exact hk⟩

def KeepsHistory {α : Type} (m : Prog World Fault α) : Prop :=
  Prog.Moves (fun w w' => WellKept w.session → WellKept w'.session) m

section
variable {α β : Type} {m : Prog World Fault α} {f : α → Prog World Fault β}

theorem KeepsHistory.pure (a : α) : KeepsHistory (Pure.pure a : Prog World Fault α) := fun _ h => h

theorem KeepsHistory.raise (e : Fault) : KeepsHistory (Prog.raise e : Prog World Fault α) := fun _ h => h

theorem KeepsHistory.get : KeepsHistory (Prog.get : Prog World Fault World) := fun _ h => h

theorem KeepsHistory.bind (hm : KeepsHistory m) (hf : ∀ a, KeepsHistory (f a)) : KeepsHistory (m >>= f) :=
  Prog.Moves.bind (fun _ _ _ huv hvw h => hvw (huv h)) hm hf

theorem KeepsHistory.changeSession {g : SessionState → SessionState} (h : ∀ s, WellKept s → WellKept (g s)) :
    KeepsHistory (changeSession g) := fun w hw => h w.session hw

theorem KeepsHistory.changeRun (g : RunState → RunState) : KeepsHistory (changeRun g) := fun _ h => h

theorem KeepsHistory.happen (h : Happening) : KeepsHistory (happen h) := fun _ h => h

theorem KeepsHistory.rescue {caught : Fault → Option (Prog World Fault α)} (hm : KeepsHistory m)
    (hc : ∀ e handle, caught e = some handle → KeepsHistory handle) : KeepsHistory (Prog.rescue m caught) :=
  Prog.Moves.rescue (fun _ _ _ huv hvw h => hvw (huv h)) hm hc

end

variable (b : NativeToolAgentBackend) (env : ℕ → Reply)

theorem consult_keeps : KeepsHistory (consult env) := fun _ h => h

theorem clock_keeps : KeepsHistory (clock env) := fun _ h => h

theorem ofExcept_keeps {α : Type} (x : Except Fault α) : KeepsHistory (ofExcept x) := by
  cases x with
  | ok a => exact .pure a
  | error e => exact .raise e

theorem appendMessages_keeps {new : List LLMMessage} (hnew : Paired new) : KeepsHistory (appendMessages new) :=
  .changeSession fun _ hs => hs.append hnew

theorem addEvent_keeps (kind : AgentEventKind) (callId toolName : Option Text) (content : Text) :
    KeepsHistory (Prog.modify fun w => addEvent w kind callId toolName content) :=
  fun _ hw => hw.congr rfl rfl

theorem emit_keeps : KeepsHistory (emit env) := by
  refine .bind (consult_keeps env) fun reply => ?_
  cases reply.emitError with
  | some described => exact .changeRun _
  | none => exact .pure ()

theorem recordEvent_keeps (kind : AgentEventKind) (callId toolName : Option Text) (content : Text) :
    KeepsHistory (recordEvent env kind callId toolName content) := by
  refine .bind (addEvent_keeps kind callId toolName content) fun _ => .bind .get fun w => ?_
  split
  · exact .pure ()
  · exact emit_keeps env

theorem usage_keeps : KeepsHistory usage := .bind .get fun _ => ofExcept_keeps _

theorem concluded_keeps (before : Option Text) (termination : AgentTermination) (finalMessage model : Text)
    (u : UsageSnapshot) : KeepsHistory (concluded before termination finalMessage model u) := by
  refine .bind .get fun w => ?_
  split
  · exact .bind (.changeRun _) fun _ => .bind .get fun _ => .pure _
  · exact .pure _

theorem finishing_keeps (termination : AgentTermination) (finalMessage model : Text) :
    KeepsHistory (finishing env termination finalMessage model) := by
  have hfinish : KeepsHistory (finish env termination finalMessage model) := by
    refine .bind usage_keeps fun u => .bind .get fun before => ?_
    exact .bind (recordEvent_keeps env _ _ _ _) fun _ => concluded_keeps _ _ _ _ _
  exact .bind hfinish fun r => .pure (some r)

theorem orSinkError_keeps (model : Text) {next : Prog World Fault (Option AgentSessionResult)}
    (hnext : KeepsHistory next) : KeepsHistory (orSinkError env model next) := by
  refine .bind .get fun w => ?_
  cases w.run.sinkError with
  | some error => exact finishing_keeps env _ _ _
  | none => exact hnext

theorem raiseIf_keeps (error : Option Text) : KeepsHistory (raiseIf error) := by
  cases error with
  | some described => exact .raise _
  | none => exact .pure ()

theorem contextFactory_keeps : KeepsHistory (contextFactory env) :=
  .bind (consult_keeps env) fun _ => raiseIf_keeps _

theorem toolResult_keeps (call : LLMToolCall) : KeepsHistory (toolResult b env call) :=
  .bind (consult_keeps env) fun _ => .pure _

theorem submitAll_keeps (place : ℕ) (calls : List LLMToolCall) : KeepsHistory (submitAll env place calls) := by
  induction calls generalizing place with
  | nil => exact .pure ()
  | cons call rest ih =>
    refine .bind ?_ fun _ => ih (place + 1)
    exact .bind (consult_keeps env) fun _ => .bind (raiseIf_keeps _) fun _ _ h => h

theorem collect_keeps (index : ℕ) (calls : List LLMToolCall) (results : List (Option LLMToolResult)) :
    KeepsHistory (collect b env index calls results) := by
  induction calls generalizing index results with
  | nil => exact .pure _
  | cons call rest ih => exact .bind (toolResult_keeps b env call) fun _ => ih _ _

theorem gather_keeps (deadline : ℚ≥0) (calls : List LLMToolCall) :
    KeepsHistory (gather b env deadline calls) := by
  induction calls with
  | nil => exact .pure _
  | cons call rest ih =>
    refine .bind (clock_keeps env) fun now => ?_
    split
    · exact .pure _
    · refine .bind (contextFactory_keeps env) fun _ => .bind ?_ fun safe => ?_
      · exact .bind (consult_keeps env) fun _ => .pure _
      · split
        · exact .bind ih fun _ => .pure _
        · exact .pure _

theorem runBatch_keeps (start : ℕ) (batch : List LLMToolCall) (p : Progress) :
    KeepsHistory (runBatch b env start batch p) :=
  .bind (submitAll_keeps env 0 batch) fun _ => .bind (collect_keeps b env start batch p.results) fun _ => .pure _

theorem runAlone_keeps (call : LLMToolCall) (p : Progress) : KeepsHistory (runAlone b env call p) :=
  .bind (contextFactory_keeps env) fun _ => .bind (fun _ h => h) fun _ =>
    .bind (toolResult_keeps b env call) fun _ => .pure _

theorem executeFrom_keeps (calls : List LLMToolCall) (deadline : ℚ≥0) (fuel : ℕ) (p : Progress) :
    KeepsHistory (executeFrom b env calls deadline fuel p) := by
  induction fuel generalizing p with
  | zero => exact .pure p
  | succ fuel ih =>
    unfold executeFrom
    split
    · exact .pure p
    · refine .bind (clock_keeps env) fun now => ?_
      split
      · exact .pure _
      · refine .bind (gather_keeps b env deadline _) fun batch => ?_
        split
        · exact .bind (runBatch_keeps b env _ _ _) fun q => ih q
        · refine .bind (clock_keeps env) fun now => ?_
          split
          · exact .pure _
          · split
            · exact .bind (runAlone_keeps b env _ _) fun q => ih q
            · exact .pure p

theorem execute_keeps (calls : List LLMToolCall) (deadline : ℚ≥0) : KeepsHistory (execute b env calls deadline) := by
  refine .bind (executeFrom_keeps b env calls deadline _ _) fun p => ?_
  unfold scheduled
  split
  · exact .raise _
  · exact .pure _

theorem recordToolCalls_keeps (calls : List LLMToolCall) : KeepsHistory (recordToolCalls env calls) := by
  induction calls with
  | nil => exact .pure ()
  | cons call rest ih => exact .bind (recordEvent_keeps env _ _ _ _) fun _ => ih

theorem recordToolResults_keeps (pairs : List (LLMToolCall × LLMToolResult)) :
    KeepsHistory (recordToolResults env pairs) := by
  induction pairs with
  | nil => exact .pure ()
  | cons pair rest ih => exact .bind (recordEvent_keeps env _ _ _ _) fun _ => ih

theorem appendToolExchange_keeps {response : LLMResponse} (hcalls : response.toolCalls ≠ [])
    (results : List LLMToolResult) (startedCount : ℕ) :
    KeepsHistory (appendToolExchange env response results startedCount) := by
  unfold appendToolExchange
  by_cases hlen : response.toolCalls.length ≠ results.length
  · rw [if_pos hlen]
    exact .raise _
  · rw [if_neg hlen]
    by_cases hids : response.toolCalls.map (·.callId) ≠ results.map (·.callId)
    · rw [if_pos hids]
      exact .raise _
    · rw [if_neg hids]
      refine .bind (appendMessages_keeps (paired_exchange hcalls (not_not.mp hids))) fun _ => ?_
      refine .bind (.changeSession fun s hs => hs.congr rfl rfl) fun _ => ?_
      exact recordToolResults_keeps env _

section
variable {response : LLMResponse} (hcalls : response.toolCalls ≠ [])
include hcalls

theorem rejectAll_keeps (code message : Text) {last : Prog World Fault (Option AgentSessionResult)}
    (hlast : KeepsHistory last) : KeepsHistory (rejectAll env response code message last) :=
  .bind (appendToolExchange_keeps env hcalls _ _) fun _ => orSinkError_keeps env _ hlast

theorem afterScheduler_keeps (deadline : ℚ≥0) (rejected : List LLMToolCall) (started : ℕ)
    (outcome : Except Fault ScheduledToolResults) :
    KeepsHistory (afterScheduler env response deadline rejected started outcome) := by
  cases outcome with
  | error e => exact .bind (.happen _) fun _ => rejectAll_keeps env hcalls _ _ (finishing_keeps env _ _ _)
  | ok s =>
    refine .bind (appendToolExchange_keeps env hcalls _ _) fun _ => orSinkError_keeps env _ ?_
    unfold afterExchange
    split
    · exact finishing_keeps env _ _ _
    · refine .bind (clock_keeps env) fun now => ?_
      split
      · exact finishing_keeps env _ _ _
      · split
        · exact finishing_keeps env _ _ _
        · exact .pure none

theorem runTools_keeps (deadline : ℚ≥0) (admitted rejected : List LLMToolCall) :
    KeepsHistory (runTools b env response deadline admitted rejected) := by
  refine .bind .get fun before => .bind ?_ fun outcome => .bind .get fun after => ?_
  · exact Prog.Moves.attempt (execute_keeps b env admitted deadline)
  · exact afterScheduler_keeps env hcalls _ _ _ _

theorem handleToolCalls_keeps (limits : AgentSessionLimits) :
    KeepsHistory (handleToolCalls b env limits response) := by
  refine .bind usage_keeps fun u => .bind .get fun w => .bind (clock_keeps env) fun now => ?_
  split
  · refine .bind (recordToolCalls_keeps env _) fun _ => ?_
    exact rejectAll_keeps env hcalls _ _ (finishing_keeps env _ _ _)
  · split
    · refine .bind (recordToolCalls_keeps env _) fun _ => ?_
      exact rejectAll_keeps env hcalls _ _ (finishing_keeps env _ _ _)
    · refine .bind (recordToolCalls_keeps env _) fun _ => .bind .get fun w => ?_
      cases w.run.sinkError with
      | some error => exact rejectAll_keeps env hcalls _ _ (finishing_keeps env _ _ _)
      | none => exact runTools_keeps b env hcalls _ _ _

end

def Fits (shapes : List MessageShape) (l : Location) : Prop :=
  ∃ rs, shapes[l.messageIndex]? = some (.tool rs) ∧ rs[l.resultIndex]? = some (l.result.callId, l.result.isError)

theorem locations_fit {messages : List LLMMessage} {l : Location} (hl : l ∈ locations messages) :
    Fits (messages.map shape) l := by
  unfold locations at hl
  obtain ⟨m, hm, hr⟩ := List.mem_flatMap.mp hl
  obtain ⟨r, hr, hsome⟩ := List.mem_filterMap.mp hr
  have hmi := List.mem_zipIdx_iff_getElem?.mp hm
  have hri := List.mem_zipIdx_iff_getElem?.mp hr
  by_cases hc : isCompactedResult r.1 = true
  · rw [if_pos hc] at hsome
    exact nomatch hsome
  · rw [if_neg hc] at hsome
    have hleq := Option.some.inj hsome
    subst hleq
    obtain ⟨m, i⟩ := m
    cases m with
    | tool results =>
      refine ⟨results.map fun r => (r.callId, r.isError), ?_, ?_⟩
      · rw [List.getElem?_map, hmi]
        rfl
      · rw [List.getElem?_map]
        exact congrArg (Option.map fun r : LLMToolResult => (r.callId, r.isError)) hri
    | system content => exact nomatch hri
    | user content => exact nomatch hri
    | assistant content calls => exact nomatch hri

theorem compactable_mem {messages : List LLMMessage} {overBudget : Bool} {l : Location}
    (hl : l ∈ compactable b messages overBudget) : l ∈ locations messages := by
  have hold : ∀ p : Location → Bool,
      l ∈ ((locations messages).take ((locations messages).length - b.recentToolResultsToKeep)).filter p →
      l ∈ locations messages := fun p h => List.mem_of_mem_take (List.mem_of_mem_filter h)
  unfold compactable at hl
  cases overBudget with
  | true =>
    cases List.mem_append.mp hl with
    | inl h => exact hold _ h
    | inr h => exact hold _ h
  | false => exact hold _ hl

theorem compactAt_shape {messages : List LLMMessage} {l : Location} (hl : Fits (messages.map shape) l) :
    (compactAt messages l).map shape = messages.map shape := by
  obtain ⟨rs, hm, hr⟩ := hl
  rw [List.getElem?_map] at hm
  obtain ⟨m, hmi, hshape⟩ := Option.map_eq_some_iff.mp hm
  obtain ⟨results, rfl, hrs⟩ := shape_tool hshape
  subst hrs
  unfold compactAt
  rw [hmi]
  apply List.ext_getElem?
  intro i
  rw [List.map_set, List.getElem?_set]
  by_cases hi : l.messageIndex = i
  · subst hi
    have hlt : l.messageIndex < (messages.map shape).length := by
      rw [List.length_map]
      exact (List.getElem?_eq_some_iff.mp hmi).1
    rw [if_pos rfl, if_pos hlt, List.getElem?_map, hmi]
    show some (MessageShape.tool _) = some (MessageShape.tool _)
    rw [LLMMessage.toolResults, List.map_set]
    congr 2
    apply List.ext_getElem?
    intro k
    rw [List.getElem?_set]
    by_cases hk : l.resultIndex = k
    · subst hk
      rw [if_pos rfl, if_pos (List.getElem?_eq_some_iff.mp hr).1, hr]
    · rw [if_neg hk]
  · rw [if_neg hi]

theorem estimateInputTokens_keeps : KeepsHistory (estimateInputTokens env) := by
  refine .bind (consult_keeps env) fun reply => ?_
  cases reply.estimate with
  | error e => exact .raise e
  | ok n =>
    show KeepsHistory (if n < 0 then _ else _)
    split
    · exact .raise _
    · exact .pure _

def HasShapes (shapes : List MessageShape) (w : World) : Prop :=
  WellKept w.session ∧ w.session.messages.map shape = shapes

theorem HasShapes.rewrite {shapes : List MessageShape} {w : World} {messages : List LLMMessage}
    (hw : HasShapes shapes w) (hm : messages.map shape = shapes) :
    HasShapes shapes { w with session := w.session.withMessages true messages } := by
  have hsame : messages.map shape = w.session.messages.map shape := hm.trans hw.2.symm
  exact ⟨hw.1.withMessages (paired_of_shape hsame.symm hw.1.present) fun _ => hsame, hm⟩

theorem estimate_holds (shapes : List MessageShape) :
    Triple (HasShapes shapes) (estimateInputTokens env) (fun _ => HasShapes shapes) (HasShapes shapes) := by
  refine Triple.bind (Q := fun _ => HasShapes shapes) (Triple.call fun _ h => h) fun reply => ?_
  cases reply.estimate with
  | error e => exact Triple.raise fun _ h => h
  | ok n =>
    show Triple _ (if n < 0 then _ else _) _ _
    split
    · exact Triple.raise fun _ h => h
    · exact Triple.pure fun _ h => h

theorem compactFrom_holds {shapes : List MessageShape} (overBudget : Bool) (ls : List Location)
    (hls : ∀ l ∈ ls, Fits shapes l) (c : Compaction) :
    Triple (HasShapes shapes) (compactFrom b env overBudget ls c) (fun _ => HasShapes shapes) (HasShapes shapes) := by
  induction ls generalizing c with
  | nil => exact Triple.pure fun _ h => h
  | cons l rest ih =>
    have hrest := ih fun l' hl' => hls l' (List.mem_cons_of_mem l hl')
    refine Triple.bind (Q := fun v w => v.session.messages.map shape = shapes ∧ HasShapes shapes w)
      (Triple.get fun w h => ⟨h.2, h⟩) fun v => Triple.assume fun hv => ?_
    refine Triple.bind (Q := fun _ => HasShapes shapes) (Triple.modify fun w h => ?_) fun _ => ?_
    · apply h.rewrite
      rw [compactAt_shape (by rw [h.2]; exact hls l List.mem_cons_self), h.2]
    · refine Triple.bind (estimate_holds env shapes) fun candidate => ?_
      split
      · exact Triple.bind (Q := fun _ => HasShapes shapes) (Triple.modify fun w h => h.rewrite hv) fun _ => hrest c
      · split
        · exact Triple.pure fun _ h => h
        · exact hrest _

theorem compactFrom_run {w : World} (hw : WellKept w.session) (overBudget : Bool) (c : Compaction) :
    WellKept (compactFrom b env overBudget (compactable b w.session.messages overBudget) c w).2.session := by
  have h := compactFrom_holds b env overBudget (compactable b w.session.messages overBudget)
    (fun l hl => locations_fit (compactable_mem b hl)) c w ⟨hw, rfl⟩
  cases hrun : compactFrom b env overBudget (compactable b w.session.messages overBudget) c w with
  | mk r w' =>
    rw [hrun] at h
    cases r with
    | ok a => exact h.1
    | error e => exact h.1

theorem contextLimit_keeps (message : Text) : KeepsHistory (contextLimit b env message) := finishing_keeps env _ _ _

theorem afterCompaction_keeps (overBudget : Bool) (before : ℕ) (c : Compaction) :
    KeepsHistory (afterCompaction b env overBudget before c) := by
  unfold afterCompaction
  split
  · exact .pure none
  · split
    · exact contextLimit_keeps b env _
    · refine .bind (recordEvent_keeps env _ _ _ _) fun _ => orSinkError_keeps env _ ?_
      split
      · exact contextLimit_keeps b env _
      · exact .pure none

theorem compactContext_keeps (overBudget : Bool) (before : ℕ) :
    KeepsHistory (compactContext b env overBudget before) := by
  intro w hw
  unfold compactContext
  rw [Prog.bind_ok (Prog.get_run (w := w))]
  split
  · exact hw
  · split
    · exact contextLimit_keeps b env _ w hw
    · have hrun := compactFrom_run b env hw overBudget { estimated := before }
      cases hc : compactFrom b env overBudget (compactable b w.session.messages overBudget) { estimated := before } w with
      | mk r w' =>
        rw [hc] at hrun
        cases r with
        | ok c =>
          rw [Prog.bind_ok hc]
          exact afterCompaction_keeps b env overBudget before c w' hrun
        | error e =>
          rw [Prog.bind_error hc]
          exact hrun

theorem prepareContext_keeps : KeepsHistory (prepareContext b env) := by
  refine .bind (estimateInputTokens_keeps env) fun before => ?_
  split
  · exact .pure none
  · exact compactContext_keeps b env _ before

theorem admission_keeps (limits : AgentSessionLimits) : KeepsHistory (admission b env limits) := by
  refine .rescue ?_ ?_
  · refine .bind usage_keeps fun u => .bind .get fun w => .bind (clock_keeps env) fun now => ?_
    split
    · exact finishing_keeps env _ _ _
    · split
      · exact finishing_keeps env _ _ _
      · split
        · exact finishing_keeps env _ _ _
        · exact prepareContext_keeps b env
  · intro e handle he
    cases e with
    | billing m => exact nomatch he
    | value m => cases he; exact finishing_keeps env _ _ _
    | runtime m => cases he; exact finishing_keeps env _ _ _
    | other d => cases he; exact finishing_keeps env _ _ _

theorem recoverMalformedToolCall_keeps (error : Text) : KeepsHistory (recoverMalformedToolCall b env error) := by
  refine .bind .get fun w => ?_
  split
  · exact finishing_keeps env _ _ _
  · refine .bind (.changeRun _) fun _ => .bind (appendMessages_keeps (paired_singleton trivial)) fun _ => ?_
    exact .bind (recordEvent_keeps env _ _ _ _) fun _ => orSinkError_keeps env _ (.pure none)

theorem appendText_keeps (response : LLMResponse) : KeepsHistory (appendText response) := by
  unfold appendText
  split
  · exact .pure ()
  · exact appendMessages_keeps (paired_singleton rfl)

theorem continueOutput_keeps (response : LLMResponse) : KeepsHistory (continueOutput env response) := by
  refine .bind (.changeRun _) fun _ => .bind (.changeSession fun s hs => hs.congr rfl rfl) fun _ => ?_
  refine .bind (appendMessages_keeps (paired_singleton trivial)) fun _ => ?_
  exact .bind (recordEvent_keeps env _ _ _ _) fun _ => orSinkError_keeps env _ (.pure none)

theorem decideStop_keeps (response : LLMResponse) (recoveries : ℕ) :
    KeepsHistory (decideStop env response recoveries) := by
  unfold decideStop
  cases response.stopReason with
  | completed =>
    show KeepsHistory (if _ then _ else _)
    split <;> exact finishing_keeps env _ _ _
  | refusal => exact finishing_keeps env _ _ _
  | contentFilter => exact finishing_keeps env _ _ _
  | maxTokens =>
    show KeepsHistory (if _ then _ else if _ then _ else _)
    split
    · exact finishing_keeps env _ _ _
    · split
      · exact finishing_keeps env _ _ _
      · exact continueOutput_keeps env response
  | toolCalls => exact finishing_keeps env _ _ _

theorem handleText_keeps (response : LLMResponse) : KeepsHistory (handleText env response) := by
  refine .bind .get fun w => .bind (clock_keeps env) fun now => ?_
  split
  · exact .bind (appendText_keeps response) fun _ => finishing_keeps env _ _ _
  · exact .bind (appendText_keeps response) fun _ => .bind .get fun w => decideStop_keeps env response _

theorem handleResponse_keeps (limits : AgentSessionLimits) (response : LLMResponse) :
    KeepsHistory (handleResponse b env limits response) := by
  refine .bind (.happen _) fun _ => .bind (.bind ?_ fun _ => recordEvent_keeps env _ _ _ _) fun _ => ?_
  · exact .changeSession fun s hs => hs.congr rfl rfl
  · apply orSinkError_keeps
    by_cases hstop : response.stopReason = .toolCalls
    · rw [if_pos hstop]
      exact handleToolCalls_keeps b env (response.calls_iff.mp hstop) limits
    · rw [if_neg hstop]
      exact handleText_keeps env response

theorem queryFailed_keeps (error : Text) : KeepsHistory (queryFailed b env error) :=
  .bind .get fun _ => .bind (clock_keeps env) fun _ => finishing_keeps env _ _ _

theorem handleAnswer_keeps (limits : AgentSessionLimits) (answer : Answer) :
    KeepsHistory (handleAnswer b env limits answer) := by
  cases answer with
  | response r => exact handleResponse_keeps b env limits r
  | malformed error => exact recoverMalformedToolCall_keeps b env error
  | protocolError error => exact finishing_keeps env _ _ _
  | transient error => exact queryFailed_keeps b env error
  | billing error => exact .raise _
  | other described => exact queryFailed_keeps b env described

theorem turn_keeps (limits : AgentSessionLimits) : KeepsHistory (turn b env limits) := by
  refine .bind (admission_keeps b env limits) fun admitted => ?_
  cases admitted with
  | some r => exact .pure _
  | none =>
    refine .bind .get fun w => .bind (clock_keeps env) fun now => ?_
    split
    · exact finishing_keeps env _ _ _
    · refine .bind ?_ fun answer => handleAnswer_keeps b env limits answer
      exact .bind (fun _ h => h) fun _ => .bind (consult_keeps env) fun _ => .pure _

theorem rounds_keep (limits : AgentSessionLimits) (fuel : ℕ) : KeepsHistory (rounds b env limits fuel) := by
  induction fuel with
  | zero => exact .pure none
  | succ n ih =>
    refine .bind (turn_keeps b env limits) fun r => ?_
    cases r with
    | some r => exact .pure _
    | none => exact ih

theorem runSession_keeps (limits : AgentSessionLimits) (opened : AgentEventKind) (fuel : ℕ) :
    KeepsHistory (runSession b env limits opened fuel) :=
  .bind (recordEvent_keeps env _ _ _ _) fun _ => orSinkError_keeps env _ (rounds_keep b env limits fuel)

theorem create_wellKept {sessions : List SessionState} {request : AgentSessionRequest} {freshId : Text}
    {s : SessionState} (h : create b sessions request freshId = .ok s) : WellKept s := by
  unfold create at h
  split at h
  · exact nomatch h
  · split at h
    · exact nomatch h
    · split at h
      · exact nomatch h
      · split at h
        · exact nomatch h
        · split at h
          · exact nomatch h
          · cases h
            refine ⟨⟨false, [], rfl⟩, fun v hv => ?_, List.IsChain.singleton _⟩
            rw [List.mem_singleton.mp hv]
            exact (paired_singleton (m := .system request.system) trivial).append
              (paired_singleton (m := .user request.user) trivial)

theorem resume_wellKept {sessions : List SessionState} (hs : ∀ s ∈ sessions, WellKept s)
    {request : AgentSessionRequest} {id : Text} {s : SessionState} (h : resume b sessions request id = .ok s) :
    WellKept s := by
  unfold resume at h
  split at h
  · exact nomatch h
  · next t hfind =>
    split at h
    · exact nomatch h
    · split at h
      · exact nomatch h
      · cases h
        have ht : WellKept t := hs t (List.mem_of_find?_eq_some hfind)
        exact (ht.append (paired_singleton (m := .user (renderPreflightFeedback request.feedback)) trivial)).congr
          rfl rfl

theorem openSession_wellKept {sessions : List SessionState} (hs : ∀ s ∈ sessions, WellKept s)
    {request : AgentSessionRequest} {isDir : Bool} {freshId : Text} {s : SessionState}
    (h : openSession b sessions request isDir freshId = .ok s) : WellKept s := by
  unfold openSession at h
  split at h
  · exact nomatch h
  · split at h
    · exact create_wellKept b h
    · exact resume_wellKept b hs h

theorem Host.run_wellKept {host : Host} (hs : ∀ s ∈ host.sessions, WellKept s) (request : AgentSessionRequest)
    (fuel : ℕ) : ∀ s ∈ (host.run b env request fuel).2.sessions, WellKept s := by
  unfold Host.run
  cases ho : openSession b host.sessions request (env host.asked).isDir (env (host.asked + 1)).freshId with
  | error e => exact hs
  | ok s =>
    have hend := runSession_keeps b env request.limits (openedEvent request) fuel (startWorld env host request s)
      (openSession_wellKept b hs ho)
    intro t ht
    cases List.mem_cons.mp ht with
    | inl heq => rw [heq]; exact hend
    | inr hmem => exact hs t (List.mem_of_mem_filter hmem)

/-- What the owner of a backend does: run a request, stopped after any number of rounds, or release a session. -/
inductive Operation where
  | run (request : AgentSessionRequest) (fuel : ℕ)
  | release (sessionId : Text)

def Host.operate (host : Host) : Operation → Host
  | .run request fuel => (host.run b env request fuel).2
  | .release id => host.release id

theorem Host.operate_wellKept {host : Host} (hs : ∀ s ∈ host.sessions, WellKept s) (op : Operation) :
    ∀ s ∈ (host.operate b env op).sessions, WellKept s := by
  cases op with
  | run request fuel => exact Host.run_wellKept b env hs request fuel
  | release id => exact fun s hmem => hs s (List.mem_of_mem_filter hmem)

/-- After any sequence of runs and releases, every conversation that any session has had is well
formed, and compaction has only ever changed contents. -/
theorem sessions_wellKept (ops : List Operation) :
    ∀ s ∈ (ops.foldl (Host.operate b env) {}).sessions, WellKept s := by
  have h : ∀ host : Host, (∀ s ∈ host.sessions, WellKept s) →
      ∀ s ∈ (ops.foldl (Host.operate b env) host).sessions, WellKept s := by
    induction ops with
    | nil => exact fun host hs => hs
    | cons op ops ih => exact fun host hs => ih _ (Host.operate_wellKept b env hs op)
  exact h {} fun s hs => nomatch hs

end EvoHarness.Core.Agent
