import EvoHarness.Core.Agent.Runtime
import Mathlib.Data.List.Range

/-! The numbers that a run of the native runtime gives its events: it goes on from the counter of its
session, one after another, whatever exit it takes. -/
namespace EvoHarness.Core.Agent
open PyText Hoare

def AgentEvent.stamp (e : AgentEvent) : Text × ℕ := (e.sessionId, e.sequence)

def World.stamps (w : World) : List (Text × ℕ) := w.run.events.map AgentEvent.stamp

/-- The stamps of `n` events of one session, from the number `first` on. -/
def stampsFrom (id : Text) (first n : ℕ) : List (Text × ℕ) := (List.range' first n).map fun k => (id, k)

theorem stampsFrom_append (id : Text) (first m n : ℕ) :
    stampsFrom id first m ++ stampsFrom id (first + m) n = stampsFrom id first (m + n) := by
  unfold stampsFrom
  rw [← List.map_append, ← List.range'_append_1]

/-- What was recorded in between is numbered on from the counter of the session. -/
def Counted (w w' : World) : Prop :=
  w'.session.sessionId = w.session.sessionId ∧ ∃ n,
    w'.session.nextEventSequence = w.session.nextEventSequence + n ∧
    w'.stamps = w.stamps ++ stampsFrom w.session.sessionId w.session.nextEventSequence n

theorem Counted.trans {u v w : World} (huv : Counted u v) (hvw : Counted v w) : Counted u w := by
  obtain ⟨hid, m, hm, hstamps⟩ := huv
  obtain ⟨hid', n, hn, hstamps'⟩ := hvw
  refine ⟨hid'.trans hid, m + n, by omega, ?_⟩
  rw [hstamps', hstamps, hid, hm, List.append_assoc, stampsFrom_append]

def World.tape (w : World) : Text × ℕ × List (Text × ℕ) :=
  (w.session.sessionId, w.session.nextEventSequence, w.stamps)

theorem counted_of_tape {w w' : World} (h : w'.tape = w.tape) : Counted w w' := by
  obtain ⟨hid, hrest⟩ := Prod.ext_iff.mp h
  obtain ⟨hcounter, hstamps⟩ := Prod.ext_iff.mp hrest
  exact ⟨hid, 0, hcounter, hstamps.trans (List.append_nil _).symm⟩

def Counts {α : Type} (m : Prog World Fault α) : Prop := Prog.Moves Counted m

section
variable {α β : Type} {m : Prog World Fault α} {f : α → Prog World Fault β}

theorem Counts.still (h : ∀ w, (m w).2.tape = w.tape) : Counts m := fun w => counted_of_tape (h w)

theorem Counts.pure (a : α) : Counts (Pure.pure a : Prog World Fault α) := .still fun _ => rfl

theorem Counts.raise (e : Fault) : Counts (Prog.raise e : Prog World Fault α) := .still fun _ => rfl

theorem Counts.get : Counts (Prog.get : Prog World Fault World) := .still fun _ => rfl

theorem Counts.bind (hm : Counts m) (hf : ∀ a, Counts (f a)) : Counts (m >>= f) :=
  Prog.Moves.bind (fun _ _ _ huv hvw => huv.trans hvw) hm hf

theorem Counts.rescue {caught : Fault → Option (Prog World Fault α)} (hm : Counts m)
    (hc : ∀ e handle, caught e = some handle → Counts handle) : Counts (Prog.rescue m caught) :=
  Prog.Moves.rescue (fun _ _ _ huv hvw => huv.trans hvw) hm hc

theorem Counts.attempt (hm : Counts m) : Counts (Prog.attempt m) := Prog.Moves.attempt hm

end

section
variable (b : NativeToolAgentBackend) (env : ℕ → Reply)

theorem consult_counts : Counts (consult env) := .still fun _ => rfl

theorem clock_counts : Counts (clock env) := .still fun _ => rfl

theorem happen_counts (h : Happening) : Counts (happen h) := .still fun _ => rfl

theorem ofExcept_counts {α : Type} (x : Except Fault α) : Counts (ofExcept x) := by
  cases x with
  | ok a => exact .pure a
  | error e => exact .raise e

theorem usage_counts : Counts usage := .bind .get fun _ => ofExcept_counts _

theorem appendMessages_counts (new : List LLMMessage) : Counts (appendMessages new) := .still fun _ => rfl

theorem addEvent_counts (kind : AgentEventKind) (callId toolName : Option Text) (content : Text) :
    Counts (Prog.modify fun w => addEvent w kind callId toolName content) := by
  intro w
  refine ⟨rfl, 1, rfl, ?_⟩
  show (w.run.events ++ [_]).map AgentEvent.stamp = _
  rw [List.map_append]
  rfl

theorem emit_counts : Counts (emit env) := by
  refine .bind (consult_counts env) fun reply => ?_
  cases reply.emitError with
  | some described => exact .still fun _ => rfl
  | none => exact .pure ()

theorem recordEvent_counts (kind : AgentEventKind) (callId toolName : Option Text) (content : Text) :
    Counts (recordEvent env kind callId toolName content) := by
  refine .bind (addEvent_counts kind callId toolName content) fun _ => .bind .get fun w => ?_
  split
  · exact .pure ()
  · exact emit_counts env

theorem replaceLast_stamps (events : List AgentEvent) (content : Text) :
    (replaceLast events content).map AgentEvent.stamp = events.map AgentEvent.stamp := by
  unfold replaceLast
  cases hlast : events.getLast? with
  | none => rw [List.getLast?_eq_none_iff.mp hlast]
  | some last =>
    obtain ⟨init, rfl⟩ := List.getLast?_eq_some_iff.mp hlast
    show (_ ++ [_]).map _ = _
    rw [List.dropLast_concat, List.map_append, List.map_append]
    rfl

theorem failedTermination_counts (model : Text) (u : UsageSnapshot) (error : Text) :
    Counts (failedTermination model u error) := by
  refine .bind (.still fun w => ?_) fun _ => .bind .get fun _ => .pure _
  have h : (replaceLast w.run.events error).map AgentEvent.stamp = w.stamps := replaceLast_stamps _ _
  exact Prod.ext rfl (Prod.ext rfl h)

theorem concluded_counts (before : Option Text) (termination : AgentTermination) (finalMessage model : Text)
    (u : UsageSnapshot) : Counts (concluded before termination finalMessage model u) := by
  refine .bind .get fun w => ?_
  split
  · exact failedTermination_counts _ _ _
  · exact .pure _

theorem finishing_counts (termination : AgentTermination) (finalMessage model : Text) :
    Counts (finishing env termination finalMessage model) := by
  have hfinish : Counts (finish env termination finalMessage model) := by
    refine .bind usage_counts fun u => .bind .get fun before => ?_
    exact .bind (recordEvent_counts env _ _ _ _) fun _ => concluded_counts _ _ _ _ _
  exact .bind hfinish fun r => .pure (some r)

theorem orSinkError_counts (model : Text) {next : Prog World Fault (Option AgentSessionResult)}
    (hnext : Counts next) : Counts (orSinkError env model next) := by
  refine .bind .get fun w => ?_
  cases w.run.sinkError with
  | some error => exact finishing_counts env _ _ _
  | none => exact hnext

theorem raiseIf_counts (error : Option Text) : Counts (raiseIf error) := by
  cases error with
  | some described => exact .raise _
  | none => exact .pure ()

theorem contextFactory_counts : Counts (contextFactory env) :=
  .bind (consult_counts env) fun _ => raiseIf_counts _

theorem toolResult_counts (call : LLMToolCall) : Counts (toolResult b env call) :=
  .bind (consult_counts env) fun _ => .pure _

theorem submitAll_counts (place : ℕ) (calls : List LLMToolCall) : Counts (submitAll env place calls) := by
  induction calls generalizing place with
  | nil => exact .pure ()
  | cons call rest ih =>
    refine .bind ?_ fun _ => ih (place + 1)
    exact .bind (consult_counts env) fun _ => .bind (raiseIf_counts _) fun _ => .still fun _ => rfl

theorem collect_counts (index : ℕ) (calls : List LLMToolCall) (results : List (Option LLMToolResult)) :
    Counts (collect b env index calls results) := by
  induction calls generalizing index results with
  | nil => exact .pure _
  | cons call rest ih => exact .bind (toolResult_counts b env call) fun _ => ih _ _

theorem gather_counts (deadline : ℚ≥0) (calls : List LLMToolCall) : Counts (gather b env deadline calls) := by
  induction calls with
  | nil => exact .pure _
  | cons call rest ih =>
    refine .bind (clock_counts env) fun now => ?_
    split
    · exact .pure _
    · refine .bind (contextFactory_counts env) fun _ => .bind ?_ fun safe => ?_
      · exact .bind (consult_counts env) fun _ => .pure _
      · split
        · exact .bind ih fun _ => .pure _
        · exact .pure _

theorem runBatch_counts (start : ℕ) (batch : List LLMToolCall) (p : Progress) :
    Counts (runBatch b env start batch p) :=
  .bind (submitAll_counts env 0 batch) fun _ => .bind (collect_counts b env start batch p.results) fun _ => .pure _

theorem runAlone_counts (call : LLMToolCall) (p : Progress) : Counts (runAlone b env call p) :=
  .bind (contextFactory_counts env) fun _ => .bind (.still fun _ => rfl) fun _ =>
    .bind (toolResult_counts b env call) fun _ => .pure _

theorem executeFrom_counts (calls : List LLMToolCall) (deadline : ℚ≥0) (fuel : ℕ) (p : Progress) :
    Counts (executeFrom b env calls deadline fuel p) := by
  induction fuel generalizing p with
  | zero => exact .pure p
  | succ fuel ih =>
    unfold executeFrom
    split
    · exact .pure p
    · refine .bind (clock_counts env) fun now => ?_
      split
      · exact .pure _
      · refine .bind (gather_counts b env deadline _) fun batch => ?_
        split
        · exact .bind (runBatch_counts b env _ _ _) fun q => ih q
        · refine .bind (clock_counts env) fun now => ?_
          split
          · exact .pure _
          · split
            · exact .bind (runAlone_counts b env _ _) fun q => ih q
            · exact .pure p

theorem execute_counts (calls : List LLMToolCall) (deadline : ℚ≥0) : Counts (execute b env calls deadline) := by
  refine .bind (executeFrom_counts b env calls deadline _ _) fun p => ?_
  unfold scheduled
  split
  · exact .raise _
  · exact .pure _

theorem recordToolCalls_counts (calls : List LLMToolCall) : Counts (recordToolCalls env calls) := by
  induction calls with
  | nil => exact .pure ()
  | cons call rest ih => exact .bind (recordEvent_counts env _ _ _ _) fun _ => ih

theorem recordToolResults_counts (pairs : List (LLMToolCall × LLMToolResult)) :
    Counts (recordToolResults env pairs) := by
  induction pairs with
  | nil => exact .pure ()
  | cons pair rest ih => exact .bind (recordEvent_counts env _ _ _ _) fun _ => ih

theorem appendToolExchange_counts (response : LLMResponse) (results : List LLMToolResult) (startedCount : ℕ) :
    Counts (appendToolExchange env response results startedCount) := by
  unfold appendToolExchange
  split
  · exact .raise _
  · split
    · exact .raise _
    · refine .bind (appendMessages_counts _) fun _ => .bind (.still fun _ => rfl) fun _ => ?_
      exact recordToolResults_counts env _

theorem rejectAll_counts (response : LLMResponse) (code message : Text)
    {last : Prog World Fault (Option AgentSessionResult)} (hlast : Counts last) :
    Counts (rejectAll env response code message last) :=
  .bind (appendToolExchange_counts env _ _ _) fun _ => orSinkError_counts env _ hlast

theorem afterScheduler_counts (response : LLMResponse) (deadline : ℚ≥0) (rejected : List LLMToolCall)
    (started : ℕ) (outcome : Except Fault ScheduledToolResults) :
    Counts (afterScheduler env response deadline rejected started outcome) := by
  cases outcome with
  | error e => exact .bind (happen_counts _) fun _ => rejectAll_counts env _ _ _ (finishing_counts env _ _ _)
  | ok s =>
    refine .bind (appendToolExchange_counts env _ _ _) fun _ => orSinkError_counts env _ ?_
    unfold afterExchange
    split
    · exact finishing_counts env _ _ _
    · refine .bind (clock_counts env) fun now => ?_
      split
      · exact finishing_counts env _ _ _
      · split
        · exact finishing_counts env _ _ _
        · exact .pure none

theorem runTools_counts (response : LLMResponse) (deadline : ℚ≥0) (admitted rejected : List LLMToolCall) :
    Counts (runTools b env response deadline admitted rejected) := by
  refine .bind .get fun before => .bind ?_ fun outcome => .bind .get fun after => ?_
  · exact .attempt (execute_counts b env admitted deadline)
  · exact afterScheduler_counts env _ _ _ _ _

theorem handleToolCalls_counts (limits : AgentSessionLimits) (response : LLMResponse) :
    Counts (handleToolCalls b env limits response) := by
  refine .bind usage_counts fun u => .bind .get fun w => .bind (clock_counts env) fun now => ?_
  split
  · refine .bind (recordToolCalls_counts env _) fun _ => ?_
    exact rejectAll_counts env _ _ _ (finishing_counts env _ _ _)
  · split
    · refine .bind (recordToolCalls_counts env _) fun _ => ?_
      exact rejectAll_counts env _ _ _ (finishing_counts env _ _ _)
    · refine .bind (recordToolCalls_counts env _) fun _ => .bind .get fun w => ?_
      cases w.run.sinkError with
      | some error => exact rejectAll_counts env _ _ _ (finishing_counts env _ _ _)
      | none => exact runTools_counts b env _ _ _ _

theorem estimateInputTokens_counts : Counts (estimateInputTokens env) := by
  refine .bind (consult_counts env) fun reply => ?_
  cases reply.estimate with
  | error e => exact .raise e
  | ok n =>
    show Counts (if n < 0 then _ else _)
    split
    · exact .raise _
    · exact .pure _

theorem compactFrom_counts (overBudget : Bool) (ls : List Location) (c : Compaction) :
    Counts (compactFrom b env overBudget ls c) := by
  induction ls generalizing c with
  | nil => exact .pure c
  | cons l rest ih =>
    refine .bind .get fun w => .bind (.still fun _ => rfl) fun _ => ?_
    refine .bind (estimateInputTokens_counts env) fun candidate => ?_
    split
    · exact .bind (.still fun _ => rfl) fun _ => ih c
    · split
      · exact .pure _
      · exact ih _

theorem afterCompaction_counts (overBudget : Bool) (before : ℕ) (c : Compaction) :
    Counts (afterCompaction b env overBudget before c) := by
  unfold afterCompaction
  split
  · exact .pure none
  · split
    · exact finishing_counts env _ _ _
    · refine .bind (recordEvent_counts env _ _ _ _) fun _ => orSinkError_counts env _ ?_
      split
      · exact finishing_counts env _ _ _
      · exact .pure none

theorem prepareContext_counts : Counts (prepareContext b env) := by
  refine .bind (estimateInputTokens_counts env) fun before => ?_
  split
  · exact .pure none
  · refine .bind .get fun w => ?_
    dsimp only
    split
    · exact .pure none
    · split
      · exact finishing_counts env _ _ _
      · exact .bind (compactFrom_counts b env _ _ _) fun c => afterCompaction_counts b env _ _ c

theorem admission_counts (limits : AgentSessionLimits) : Counts (admission b env limits) := by
  refine .rescue ?_ ?_
  · refine .bind usage_counts fun u => .bind .get fun w => .bind (clock_counts env) fun now => ?_
    split
    · exact finishing_counts env _ _ _
    · split
      · exact finishing_counts env _ _ _
      · split
        · exact finishing_counts env _ _ _
        · exact prepareContext_counts b env
  · intro e handle he
    cases e with
    | billing m => exact nomatch he
    | value m => cases he; exact finishing_counts env _ _ _
    | runtime m => cases he; exact finishing_counts env _ _ _
    | other d => cases he; exact finishing_counts env _ _ _

theorem recoverMalformedToolCall_counts (error : Text) : Counts (recoverMalformedToolCall b env error) := by
  refine .bind .get fun w => ?_
  split
  · exact finishing_counts env _ _ _
  · refine .bind (.still fun _ => rfl) fun _ => .bind (appendMessages_counts _) fun _ => ?_
    exact .bind (recordEvent_counts env _ _ _ _) fun _ => orSinkError_counts env _ (.pure none)

theorem appendText_counts (response : LLMResponse) : Counts (appendText response) := by
  unfold appendText
  split
  · exact .pure ()
  · exact appendMessages_counts _

theorem continueOutput_counts (response : LLMResponse) : Counts (continueOutput env response) := by
  refine .bind (.still fun _ => rfl) fun _ => .bind (.still fun _ => rfl) fun _ => ?_
  refine .bind (appendMessages_counts _) fun _ => ?_
  exact .bind (recordEvent_counts env _ _ _ _) fun _ => orSinkError_counts env _ (.pure none)

theorem decideStop_counts (response : LLMResponse) (recoveries : ℕ) :
    Counts (decideStop env response recoveries) := by
  unfold decideStop
  cases response.stopReason with
  | completed =>
    show Counts (if _ then _ else _)
    split <;> exact finishing_counts env _ _ _
  | refusal => exact finishing_counts env _ _ _
  | contentFilter => exact finishing_counts env _ _ _
  | maxTokens =>
    show Counts (if _ then _ else if _ then _ else _)
    split
    · exact finishing_counts env _ _ _
    · split
      · exact finishing_counts env _ _ _
      · exact continueOutput_counts env response
  | toolCalls => exact finishing_counts env _ _ _

theorem handleText_counts (response : LLMResponse) : Counts (handleText env response) := by
  refine .bind .get fun w => .bind (clock_counts env) fun now => ?_
  split
  · exact .bind (appendText_counts response) fun _ => finishing_counts env _ _ _
  · exact .bind (appendText_counts response) fun _ => .bind .get fun w => decideStop_counts env response _

theorem handleResponse_counts (limits : AgentSessionLimits) (response : LLMResponse) :
    Counts (handleResponse b env limits response) := by
  refine .bind (happen_counts _) fun _ => .bind (.bind ?_ fun _ => recordEvent_counts env _ _ _ _) fun _ => ?_
  · exact .still fun _ => rfl
  · apply orSinkError_counts
    split
    · exact handleToolCalls_counts b env limits response
    · exact handleText_counts env response

theorem queryFailed_counts (error : Text) : Counts (queryFailed b env error) :=
  .bind .get fun _ => .bind (clock_counts env) fun _ => finishing_counts env _ _ _

theorem handleAnswer_counts (limits : AgentSessionLimits) (answer : Answer) :
    Counts (handleAnswer b env limits answer) := by
  cases answer with
  | response r => exact handleResponse_counts b env limits r
  | malformed error => exact recoverMalformedToolCall_counts b env error
  | protocolError error => exact finishing_counts env _ _ _
  | transient error => exact queryFailed_counts b env error
  | billing error => exact .raise _
  | other described => exact queryFailed_counts b env described

theorem turn_counts (limits : AgentSessionLimits) : Counts (turn b env limits) := by
  refine .bind (admission_counts b env limits) fun admitted => ?_
  cases admitted with
  | some r => exact .pure _
  | none =>
    refine .bind .get fun w => .bind (clock_counts env) fun now => ?_
    split
    · exact finishing_counts env _ _ _
    · refine .bind ?_ fun answer => handleAnswer_counts b env limits answer
      exact .bind (.still fun _ => rfl) fun _ => .bind (consult_counts env) fun _ => .pure _

theorem rounds_count (limits : AgentSessionLimits) (fuel : ℕ) : Counts (rounds b env limits fuel) := by
  induction fuel with
  | zero => exact .pure none
  | succ n ih =>
    refine .bind (turn_counts b env limits) fun r => ?_
    cases r with
    | some r => exact .pure _
    | none => exact ih

theorem runSession_counts (limits : AgentSessionLimits) (opened : AgentEventKind) (fuel : ℕ) :
    Counts (runSession b env limits opened fuel) :=
  .bind (recordEvent_counts env _ _ _ _) fun _ => orSinkError_counts env _ (rounds_count b env limits fuel)

/-- Every event of a run carries the id of its session, and the counter of the session has passed it. -/
theorem Host.runOf_counts (host : Host) (request : AgentSessionRequest) (s : SessionState) (fuel : ℕ) :
    (host.runOf b env request s fuel).2.session.sessionId = s.sessionId ∧ ∃ n,
      (host.runOf b env request s fuel).2.session.nextEventSequence = s.nextEventSequence + n ∧
      (host.runOf b env request s fuel).2.stamps = stampsFrom s.sessionId s.nextEventSequence n := by
  obtain ⟨hid, n, hn, hstamps⟩ :=
    runSession_counts b env request.limits (openedEvent request) fuel (startWorld env host request s)
  exact ⟨hid, n, hn, hstamps⟩

end
end EvoHarness.Core.Agent
