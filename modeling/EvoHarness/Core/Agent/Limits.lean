import EvoHarness.Core.Agent.History
import Mathlib.Algebra.Order.Group.Nat
import Mathlib.Tactic.Linarith

/-! What a run may do within its limits, and when it stays within them. -/
namespace EvoHarness.Core.Agent
open PyText Hoare

def queriesIn : List Happening → ℕ
  | [] => 0
  | .query _ :: past => queriesIn past + 1
  | _ :: past => queriesIn past

def responsesIn : List Happening → ℕ
  | [] => 0
  | .answered _ :: past => responsesIn past + 1
  | _ :: past => responsesIn past

def costIn : List Happening → ℚ≥0
  | [] => 0
  | .answered r :: past => costIn past + r.cost
  | _ :: past => costIn past

def tokensIn : List Happening → ℕ
  | [] => 0
  | .answered r :: past => tokensIn past + (r.promptTokens + r.completionTokens)
  | _ :: past => tokensIn past

def cutOffIn : List Happening → ℕ
  | [] => 0
  | .answered r :: past => if r.stopReason = .maxTokens then cutOffIn past + 1 else cutOffIn past
  | _ :: past => cutOffIn past

/-- When a query or a tool call starts. A call that finds no free worker waits in the pool first. -/
def startOf (workers : ℕ) : Happening → Option ℚ≥0
  | .query time => some time
  | .pooled place time wait => some (if place < workers then time else time + wait)
  | .alone time => some time
  | _ => none

section
variable (workers : ℕ) (limits : AgentSessionLimits) (deadline : ℚ≥0)

def WithinLimits (time : ℚ≥0) (past : List Happening) : Prop :=
  time < deadline ∧ (∀ m, limits.maxCostUsd = some m → costIn past < m) ∧
    ∀ m, limits.maxTokens = some m → tokensIn past < m

def Admitted : List Happening → Prop
  | [] => True
  | e :: past => (∀ time, startOf workers e = some time → WithinLimits limits deadline time past) ∧ Admitted past

/-- A response asks for more: it calls tools, or it is the first to be cut off with a text. -/
def AsksMore (r : LLMResponse) (past : List Happening) : Prop :=
  r.stopReason = .toolCalls ∨ r.stopReason = .maxTokens ∧ isBlank r.text = false ∧ cutOffIn past = 0

/-- A response that asks for more leaves the tokens below their limit, a group of calls that is handed
to the pool starts before the deadline, and the scheduler raises only before it has started a call. -/
def Orderly : Happening → List Happening → Prop
  | .answered r, past => AsksMore r past → ∀ m, limits.maxTokens = some m →
      tokensIn past + (r.promptTokens + r.completionTokens) < m
  | .pooled place time wait, _ => (if place < workers then time else time + wait) < deadline
  | .schedulerRaised started, _ => started = 0
  | _, _ => True

def Steady : List Happening → Prop
  | [] => True
  | e :: past => Orderly workers limits deadline e past ∧ Steady past

instance decidableForallSome {α : Type} (o : Option α) (p : α → Prop) [DecidablePred p] :
    Decidable (∀ a, o = some a → p a) :=
  match o with
  | none => .isTrue nofun
  | some a => decidable_of_iff (p a) ⟨fun h _ heq => Option.some.inj heq ▸ h, fun h => h a rfl⟩

instance (time : ℚ≥0) (past : List Happening) : Decidable (WithinLimits limits deadline time past) :=
  inferInstanceAs (Decidable (_ ∧ _ ∧ _))

instance decidableAdmitted : (log : List Happening) → Decidable (Admitted workers limits deadline log)
  | [] => .isTrue trivial
  | _ :: past => @instDecidableAnd _ _ (decidableForallSome _ _) (decidableAdmitted past)

instance (r : LLMResponse) (past : List Happening) : Decidable (AsksMore r past) :=
  inferInstanceAs (Decidable (_ ∨ _ ∧ _ ∧ _))

instance decidableOrderly : (e : Happening) → (past : List Happening) →
    Decidable (Orderly workers limits deadline e past)
  | .answered r, past => inferInstanceAs (Decidable (AsksMore r past → ∀ m, limits.maxTokens = some m →
      tokensIn past + (r.promptTokens + r.completionTokens) < m))
  | .pooled place time wait, _ => inferInstanceAs (Decidable ((if place < workers then time else time + wait) < deadline))
  | .schedulerRaised started, _ => inferInstanceAs (Decidable (started = 0))
  | .query _, _ => .isTrue trivial
  | .alone _, _ => .isTrue trivial

instance decidableSteady : (log : List Happening) → Decidable (Steady workers limits deadline log)
  | [] => .isTrue trivial
  | e :: past => @instDecidableAnd _ _ (decidableOrderly workers limits deadline e past) (decidableSteady past)

end

structure KeepsLimits (b : NativeToolAgentBackend) (limits : AgentSessionLimits) (deadline : ℚ≥0)
    (ended : Except Fault (Option AgentSessionResult) × World) : Prop where
  terminates : ended.1 ≠ .ok none
  queries : queriesIn ended.2.log ≤ limits.maxTurns + maxToolCallRecoveries
  calls : invocationsIn ended.2.log ≤ limits.maxToolCalls
  admitted : Admitted b.maxParallelTools limits deadline ended.2.log
  counted : ∀ r, ended.1 = .ok (some r) →
    r.turns = responsesIn ended.2.log ∧ r.toolCalls = invocationsIn ended.2.log

structure Ink where
  log : List Happening
  turns : ℕ
  toolCalls : ℕ
  costUsd : ℚ≥0
  before : UsageSnapshot
  deadline : ℚ≥0
  recoveries : ℕ
  toolCallRecoveries : ℕ

def World.ink (w : World) : Ink :=
  ⟨w.log, w.session.lifetimeTurns, w.session.lifetimeToolCalls, w.session.lifetimeCostUsd, w.run.usageBefore,
    w.run.deadline, w.run.recoveries, w.run.toolCallRecoveries⟩

def Quiet {α : Type} (m : Prog World Fault α) : Prop := Prog.Moves (fun w w' => w'.ink = w.ink) m

section
variable {α β : Type} {m : Prog World Fault α} {f : α → Prog World Fault β}

theorem Quiet.pure (a : α) : Quiet (Pure.pure a : Prog World Fault α) := fun _ => rfl

theorem Quiet.raise (e : Fault) : Quiet (Prog.raise e : Prog World Fault α) := fun _ => rfl

theorem Quiet.get : Quiet (Prog.get : Prog World Fault World) := fun _ => rfl

theorem Quiet.bind (hm : Quiet m) (hf : ∀ a, Quiet (f a)) : Quiet (m >>= f) :=
  Prog.Moves.bind (fun _ _ _ huv hvw => hvw.trans huv) hm hf

theorem Quiet.triple (hm : Quiet m) (P : Ink → Prop) :
    Triple (fun w => P w.ink) m (fun _ w => P w.ink) fun w => P w.ink :=
  Triple.of_same hm P

end

variable (b : NativeToolAgentBackend) (env : ℕ → Reply)

theorem consult_quiet : Quiet (consult env) := fun _ => rfl

theorem clock_quiet : Quiet (clock env) := fun _ => rfl

theorem appendMessages_quiet (new : List LLMMessage) : Quiet (appendMessages new) := fun _ => rfl

theorem emit_quiet : Quiet (emit env) := by
  refine .bind (consult_quiet env) fun reply => ?_
  cases reply.emitError with
  | some described => exact fun _ => rfl
  | none => exact .pure ()

theorem recordEvent_quiet (kind : AgentEventKind) (callId toolName : Option Text) (content : Text) :
    Quiet (recordEvent env kind callId toolName content) := by
  refine .bind (fun _ => rfl) fun _ => .bind .get fun w => ?_
  split
  · exact .pure ()
  · exact emit_quiet env

theorem recordToolCalls_quiet (calls : List LLMToolCall) : Quiet (recordToolCalls env calls) := by
  induction calls with
  | nil => exact .pure ()
  | cons call rest ih => exact .bind (recordEvent_quiet env _ _ _ _) fun _ => ih

theorem recordToolResults_quiet (pairs : List (LLMToolCall × LLMToolResult)) : Quiet (recordToolResults env pairs) := by
  induction pairs with
  | nil => exact .pure ()
  | cons pair rest ih => exact .bind (recordEvent_quiet env _ _ _ _) fun _ => ih

theorem estimateInputTokens_quiet : Quiet (estimateInputTokens env) := by
  refine .bind (consult_quiet env) fun reply => ?_
  cases reply.estimate with
  | error e => exact .raise e
  | ok n =>
    show Quiet (if n < 0 then _ else _)
    split
    · exact .raise _
    · exact .pure _

theorem compactFrom_quiet (overBudget : Bool) (ls : List Location) (c : Compaction) :
    Quiet (compactFrom b env overBudget ls c) := by
  induction ls generalizing c with
  | nil => exact .pure c
  | cons l rest ih =>
    refine .bind .get fun w => .bind (fun _ => rfl) fun _ => .bind (estimateInputTokens_quiet env) fun candidate => ?_
    split
    · exact .bind (fun _ => rfl) fun _ => ih c
    · split
      · exact .pure _
      · exact ih _

theorem raiseIf_quiet (error : Option Text) : Quiet (raiseIf error) := by
  cases error with
  | some described => exact .raise _
  | none => exact .pure ()

theorem contextFactory_quiet : Quiet (contextFactory env) := .bind (consult_quiet env) fun _ => raiseIf_quiet _

theorem toolResult_quiet (call : LLMToolCall) : Quiet (toolResult b env call) :=
  .bind (consult_quiet env) fun _ => .pure _

theorem collect_quiet (index : ℕ) (calls : List LLMToolCall) (results : List (Option LLMToolResult)) :
    Quiet (collect b env index calls results) := by
  induction calls generalizing index results with
  | nil => exact .pure _
  | cons call rest ih => exact .bind (toolResult_quiet b env call) fun _ => ih _ _

theorem appendText_quiet (response : LLMResponse) : Quiet (appendText response) := by
  unfold appendText
  split
  · exact .pure ()
  · exact appendMessages_quiet _

/-- `u` is the difference between the lifetime accounts and those before the run. -/
def IsUsage (u : UsageSnapshot) (k : Ink) : Prop :=
  u.turns = k.turns - k.before.turns ∧ u.toolCalls = k.toolCalls - k.before.toolCalls ∧
    u.costUsd = k.costUsd - k.before.costUsd

structure Books (k : Ink) : Prop where
  turns : k.turns = k.before.turns + responsesIn k.log
  calls : k.toolCalls = k.before.toolCalls + invocationsIn k.log
  cost : k.costUsd = k.before.costUsd + costIn k.log

theorem Books.usage {k : Ink} (hk : Books k) {u : UsageSnapshot} (hu : IsUsage u k) :
    u.turns = responsesIn k.log ∧ u.toolCalls = invocationsIn k.log ∧ u.costUsd = costIn k.log := by
  refine ⟨?_, ?_, ?_⟩
  · rw [hu.1, hk.turns, Nat.add_sub_cancel_left]
  · rw [hu.2.1, hk.calls, Nat.add_sub_cancel_left]
  · rw [hu.2.2, hk.cost, add_tsub_cancel_left]

theorem deltaFrom_ok {now earlier u : UsageSnapshot} (h : now.deltaFrom earlier = .ok u) :
    u.turns = now.turns - earlier.turns ∧ u.toolCalls = now.toolCalls - earlier.toolCalls ∧
      u.costUsd = now.costUsd - earlier.costUsd := by
  unfold UsageSnapshot.deltaFrom at h
  split at h
  · exact nomatch h
  · cases h
    exact ⟨rfl, rfl, rfl⟩

theorem usage_holds (P : Ink → Prop) :
    Triple (fun w => P w.ink) usage (fun u w => IsUsage u w.ink ∧ P w.ink) fun w => P w.ink := by
  intro w hw
  unfold usage
  rw [Prog.bind_ok (Prog.get_run (w := w))]
  cases hd : w.session.usageSnapshot.deltaFrom w.run.usageBefore with
  | ok u => exact ⟨deltaFrom_ok hd, hw⟩
  | error e => exact hw

section
variable (limits : AgentSessionLimits) (deadline : ℚ≥0)

structure Ended (k : Ink) : Prop where
  queries : queriesIn k.log ≤ limits.maxTurns + maxToolCallRecoveries
  responses : responsesIn k.log ≤ limits.maxTurns
  calls : invocationsIn k.log ≤ limits.maxToolCalls
  admitted : Steady b.maxParallelTools limits deadline k.log → Admitted b.maxParallelTools limits deadline k.log

/-- The run may end here: its books are in order if its steps were, and say no more than the limits
allow. -/
structure Closing (k : Ink) : Prop extends Ended b limits deadline k where
  books : Steady b.maxParallelTools limits deadline k.log → Books k
  turns_le : k.turns ≤ k.before.turns + limits.maxTurns
  toolCalls_le : k.toolCalls ≤ k.before.toolCalls + limits.maxToolCalls

/-- Within a round, with `pending` queries not yet answered and `n` queries made. -/
structure Between (pending n : ℕ) (k : Ink) : Prop where
  books : Books k
  deadline_eq : k.deadline = deadline
  recoveries : k.recoveries = cutOffIn k.log
  queries : queriesIn k.log = responsesIn k.log + k.toolCallRecoveries + pending
  recoveries_le : k.toolCallRecoveries ≤ maxToolCallRecoveries
  turns_le : responsesIn k.log + pending ≤ limits.maxTurns
  calls_le : invocationsIn k.log ≤ limits.maxToolCalls
  admitted : Steady b.maxParallelTools limits deadline k.log → Admitted b.maxParallelTools limits deadline k.log
  tokens : Steady b.maxParallelTools limits deadline k.log → ∀ m, limits.maxTokens = some m → tokensIn k.log < m
  count : queriesIn k.log = n

/-- The result stays within the limits, and one of a completed run counts what was done. -/
structure Reported (r : AgentSessionResult) (log : List Happening) : Prop where
  turns_le : r.turns ≤ limits.maxTurns
  toolCalls_le : r.toolCalls ≤ limits.maxToolCalls
  completed : r.termination = .completed → r.turns = responsesIn log ∧ r.toolCalls = invocationsIn log

/-- A part of a round ends the run with a result that counts what was done, or goes on in `P`. -/
def Outcome (P : Ink → Prop) (o : Option AgentSessionResult) (w : World) : Prop :=
  match o with
  | some r => Ended b limits deadline w.ink ∧ (Steady b.maxParallelTools limits deadline w.log →
      r.turns = responsesIn w.log ∧ r.toolCalls = invocationsIn w.log) ∧ Reported limits r w.log
  | none => P w.ink

variable {b limits deadline}

theorem Between.closing {pending n : ℕ} {k : Ink} (hk : Between b limits deadline pending n k) :
    Closing b limits deadline k := by
  have hqueries := hk.queries
  have hrecoveries := hk.recoveries_le
  have hturns := hk.turns_le
  have hcalls := hk.calls_le
  refine ⟨⟨by omega, by omega, hcalls, hk.admitted⟩, fun _ => hk.books, ?_, ?_⟩
  · rw [hk.books.turns]
    omega
  · rw [hk.books.calls]
    omega

theorem concluded_holds (before : Option Text) (termination : AgentTermination) (finalMessage model : Text)
    (u : UsageSnapshot) (P : Ink → Prop) :
    Triple (fun w => P w.ink) (concluded before termination finalMessage model u)
      (fun r w => r.turns = u.turns ∧ r.toolCalls = u.toolCalls ∧
        (r.termination = .completed → termination = .completed) ∧ P w.ink) fun w => P w.ink := by
  intro w hw
  unfold concluded
  rw [Prog.bind_ok (Prog.get_run (w := w))]
  by_cases hs : w.run.sinkError ≠ before
  · rw [if_pos hs]
    exact ⟨rfl, rfl, nofun, hw⟩
  · rw [if_neg hs]
    exact ⟨rfl, rfl, id, hw⟩

theorem finish_holds (termination : AgentTermination) (finalMessage model : Text) (P : Ink → Prop) :
    Triple (fun w => P w.ink) (finish env termination finalMessage model)
      (fun r w => (∃ u, IsUsage u w.ink ∧ r.turns = u.turns ∧ r.toolCalls = u.toolCalls) ∧
        (r.termination = .completed → termination = .completed) ∧ P w.ink)
      fun w => P w.ink := by
  refine Triple.bind (usage_holds P) fun u => ?_
  have hget : Triple (fun w => IsUsage u w.ink ∧ P w.ink) (Prog.get : Prog World Fault World)
      (fun _ w => IsUsage u w.ink ∧ P w.ink) fun w => P w.ink := Triple.get fun _ h => h
  refine Triple.bind hget fun before => ?_
  have hrecord := (recordEvent_quiet env .termination none none finalMessage).triple fun k => IsUsage u k ∧ P k
  refine Triple.bind (hrecord.conseq (fun _ h => h) (fun _ _ h => h) fun _ h => h.2) fun _ => ?_
  have hlast := concluded_holds before.run.sinkError termination finalMessage model u fun k => IsUsage u k ∧ P k
  exact hlast.conseq (fun _ h => h) (fun r w h => ⟨⟨u, h.2.2.2.1, h.1, h.2.1⟩, h.2.2.1, h.2.2.2.2⟩) fun _ h => h.2

/-- A run may end in any state that may end it, and be completed where its books are in order. -/
theorem finishing_holds (termination : AgentTermination) (finalMessage model : Text) {R : Ink → Prop}
    (hR : ∀ k, R k → Closing b limits deadline k) (hbooks : termination = .completed → ∀ k, R k → Books k)
    (P : Ink → Prop) :
    Triple (fun w => R w.ink) (finishing env termination finalMessage model)
      (Outcome b limits deadline P) fun w => Closing b limits deadline w.ink := by
  refine Triple.bind ((finish_holds env termination finalMessage model R).conseq (fun _ h => h) (fun _ _ h => h)
    fun w h => hR _ h) fun r => ?_
  refine Triple.pure fun w h => ?_
  obtain ⟨⟨u, hu, hturns, hcalls⟩, hcompleted, hr⟩ := h
  have hclosing := hR _ hr
  have hturns_le := hclosing.turns_le
  have hcalls_le := hclosing.toolCalls_le
  refine ⟨hclosing.toEnded, fun hsteady => ?_, ?_, ?_, fun hdone => ?_⟩
  · have hbooks := (hclosing.books hsteady).usage hu
    exact ⟨hturns.trans hbooks.1, hcalls.trans hbooks.2.1⟩
  · rw [hturns, hu.1]
    omega
  · rw [hcalls, hu.2.1]
    omega
  · have hbooks := (hbooks (hcompleted hdone) _ hr).usage hu
    exact ⟨hturns.trans hbooks.1, hcalls.trans hbooks.2.1⟩

theorem orSinkError_holds {P Q : Ink → Prop} (hP : ∀ k, P k → Closing b limits deadline k) (model : Text)
    {next : Prog World Fault (Option AgentSessionResult)} {R : World → Prop}
    (hR : ∀ w, Closing b limits deadline w.ink → R w)
    (hnext : Triple (fun w => P w.ink) next (Outcome b limits deadline Q) R) :
    Triple (fun w => P w.ink) (orSinkError env model next) (Outcome b limits deadline Q) R := by
  intro w hw
  unfold orSinkError
  rw [Prog.bind_ok (Prog.get_run (w := w))]
  cases w.run.sinkError with
  | some error =>
    exact (finishing_holds env .backendError _ _ hP nofun Q).raising _ hR w hw
  | none => exact hnext w hw

def CostOpen (limits : AgentSessionLimits) (log : List Happening) : Prop :=
  ∀ m, limits.maxCostUsd = some m → costIn log < m

variable (b limits deadline) in
/-- From the accounts `k₀`, the scheduler has started `n` calls. -/
structure Started (k₀ : Ink) (n : ℕ) (k : Ink) : Prop where
  same : k = { k₀ with log := k.log }
  queries : queriesIn k.log = queriesIn k₀.log
  responses : responsesIn k.log = responsesIn k₀.log
  cost : costIn k.log = costIn k₀.log
  tokens : tokensIn k.log = tokensIn k₀.log
  cutOff : cutOffIn k.log = cutOffIn k₀.log
  invocations : invocationsIn k.log = invocationsIn k₀.log + n
  steady : Steady b.maxParallelTools limits deadline k.log → Steady b.maxParallelTools limits deadline k₀.log
  admitted : Steady b.maxParallelTools limits deadline k.log → Admitted b.maxParallelTools limits deadline k.log

variable (b limits deadline) in
structure MayStart (k : Ink) : Prop where
  costOpen : CostOpen limits k.log
  tokensOpen : Steady b.maxParallelTools limits deadline k.log → ∀ m, limits.maxTokens = some m → tokensIn k.log < m
  admitted : Steady b.maxParallelTools limits deadline k.log → Admitted b.maxParallelTools limits deadline k.log

theorem Started.none {k₀ : Ink} (h₀ : MayStart b limits deadline k₀) : Started b limits deadline k₀ 0 k₀ :=
  ⟨rfl, rfl, rfl, rfl, rfl, rfl, rfl, id, h₀.admitted⟩

theorem Started.step {k₀ k : Ink} {n : ℕ} (h₀ : MayStart b limits deadline k₀) (hk : Started b limits deadline k₀ n k)
    {e : Happening} {time : ℚ≥0} (hstart : startOf b.maxParallelTools e = some time)
    (hcall : invocationsIn (e :: k.log) = invocationsIn k.log + 1)
    (hnot : queriesIn (e :: k.log) = queriesIn k.log ∧ responsesIn (e :: k.log) = responsesIn k.log ∧
      costIn (e :: k.log) = costIn k.log ∧ tokensIn (e :: k.log) = tokensIn k.log ∧
      cutOffIn (e :: k.log) = cutOffIn k.log)
    (htime : Orderly b.maxParallelTools limits deadline e k.log → time < deadline) :
    Started b limits deadline k₀ (n + 1) { k with log := e :: k.log } := by
  obtain ⟨hq, hr, hc, ht, hcut⟩ := hnot
  refine ⟨?_, hq.trans hk.queries, hr.trans hk.responses, hc.trans hk.cost, ht.trans hk.tokens,
    hcut.trans hk.cutOff, ?_, fun h => hk.steady h.2, ?_⟩
  · show { k with log := e :: k.log } = { k₀ with log := e :: k.log }
    rw [hk.same]
  · rw [hcall, hk.invocations]
    omega
  · intro h
    refine ⟨fun time' htime' => ?_, hk.admitted h.2⟩
    have heq : time = time' := Option.some.inj (hstart.symm.trans htime')
    rw [← heq]
    refine ⟨htime h.1, ?_, ?_⟩
    · intro m hm
      rw [hk.cost]
      exact h₀.costOpen m hm
    · intro m hm
      rw [hk.tokens]
      exact h₀.tokensOpen (hk.steady h.2) m hm

/-- Some number of calls, at most `m`, has been started. -/
def StartedUpTo (b : NativeToolAgentBackend) (limits : AgentSessionLimits) (deadline : ℚ≥0) (k₀ : Ink) (m : ℕ)
    (k : Ink) : Prop := ∃ n ≤ m, Started b limits deadline k₀ n k

section
variable {k₀ : Ink} (h₀ : MayStart b limits deadline k₀)
include h₀

theorem startPooled_holds (place n : ℕ) :
    Triple (fun w => Started b limits deadline k₀ n w.ink) (startPooled env place)
      (fun _ w => Started b limits deadline k₀ (n + 1) w.ink) fun w => Started b limits deadline k₀ n w.ink := by
  refine Triple.bind ((consult_quiet env).triple _) fun reply => ?_
  refine Triple.bind ((raiseIf_quiet reply.submitError).triple _) fun _ => Triple.modify fun w hw => ?_
  exact hw.step h₀ rfl rfl ⟨rfl, rfl, rfl, rfl, rfl⟩ fun h => h

theorem submitAll_holds (place n : ℕ) (batch : List LLMToolCall) :
    Triple (fun w => Started b limits deadline k₀ n w.ink) (submitAll env place batch)
      (fun _ w => Started b limits deadline k₀ (n + batch.length) w.ink)
      fun w => StartedUpTo b limits deadline k₀ (n + batch.length) w.ink := by
  induction batch generalizing place n with
  | nil => exact Triple.pure fun _ h => h
  | cons call rest ih =>
    have hfirst := (startPooled_holds env h₀ place n).raising
      (fun w => StartedUpTo b limits deadline k₀ (n + (rest.length + 1)) w.ink) fun w h => ⟨n, by omega, h⟩
    have hrest := ih (place + 1) (n + 1)
    rw [show n + 1 + rest.length = n + (rest.length + 1) by omega] at hrest
    exact Triple.bind hfirst fun _ => hrest

theorem runBatch_holds (start : ℕ) (batch : List LLMToolCall) (p : Progress) :
    Triple (fun w => Started b limits deadline k₀ p.startedCount w.ink) (runBatch b env start batch p)
      (fun q w => q.startedCount = p.startedCount + batch.length ∧ q.index = p.index ∧
        Started b limits deadline k₀ q.startedCount w.ink)
      fun w => StartedUpTo b limits deadline k₀ (p.startedCount + batch.length) w.ink := by
  refine Triple.bind (submitAll_holds env h₀ 0 p.startedCount batch) fun _ => ?_
  have hcollect := (collect_quiet b env start batch p.results).triple
    (Started b limits deadline k₀ (p.startedCount + batch.length))
  refine Triple.bind (hcollect.conseq (fun _ h => h) (fun _ _ h => h) fun _ h => ⟨_, le_refl _, h⟩) fun results => ?_
  exact Triple.pure fun _ h => ⟨rfl, rfl, h⟩

theorem runAlone_holds (call : LLMToolCall) (p : Progress) :
    Triple (fun w => w.now < deadline ∧ Started b limits deadline k₀ p.startedCount w.ink) (runAlone b env call p)
      (fun q w => q.startedCount = p.startedCount + 1 ∧ q.index = p.index + 1 ∧
        Started b limits deadline k₀ q.startedCount w.ink)
      fun w => StartedUpTo b limits deadline k₀ (p.startedCount + 1) w.ink := by
  have hcontext : Triple (fun w => w.now < deadline ∧ Started b limits deadline k₀ p.startedCount w.ink)
      (contextFactory env) (fun _ w => w.now < deadline ∧ Started b limits deadline k₀ p.startedCount w.ink)
      fun w => StartedUpTo b limits deadline k₀ (p.startedCount + 1) w.ink := by
    refine Triple.bind (Q := fun _ w => w.now < deadline ∧ Started b limits deadline k₀ p.startedCount w.ink)
      (Triple.call fun _ h => h) fun reply => ?_
    cases reply.contextError with
    | some described => exact Triple.raise fun w h => ⟨p.startedCount, by omega, h.2⟩
    | none => exact Triple.pure fun _ h => h
  refine Triple.bind hcontext fun _ => ?_
  refine Triple.bind (Q := fun _ w => Started b limits deadline k₀ (p.startedCount + 1) w.ink)
    (Triple.modify fun w hw => ?_) fun _ => ?_
  · exact hw.2.step h₀ rfl rfl ⟨rfl, rfl, rfl, rfl, rfl⟩ fun _ => hw.1
  · have hresult := (toolResult_quiet b env call).triple (Started b limits deadline k₀ (p.startedCount + 1))
    refine Triple.bind (hresult.conseq (fun _ h => h) (fun _ _ h => h) fun _ h => ⟨_, le_refl _, h⟩) fun r => ?_
    exact Triple.pure fun _ h => ⟨rfl, rfl, h⟩

end

variable (b deadline) in
theorem gather_holds (P : Ink → Prop) (calls : List LLMToolCall) :
    Triple (fun w => P w.ink) (gather b env deadline calls)
      (fun found w => found.1.length ≤ calls.length ∧ P w.ink) fun w => P w.ink := by
  induction calls with
  | nil => exact Triple.pure fun _ h => ⟨le_refl _, h⟩
  | cons call rest ih =>
    refine Triple.bind ((clock_quiet env).triple P) fun now => ?_
    split
    · exact Triple.pure fun _ h => ⟨Nat.zero_le _, h⟩
    · refine Triple.bind ((contextFactory_quiet env).triple P) fun _ => ?_
      have hsafe : Quiet (isConcurrencySafe b env call) := .bind (consult_quiet env) fun _ => .pure _
      refine Triple.bind (hsafe.triple P) fun safe => ?_
      split
      · refine Triple.bind ih fun more => Triple.pure fun _ h => ⟨?_, h.2⟩
        exact Nat.succ_le_succ h.1
      · exact Triple.pure fun _ h => ⟨Nat.zero_le _, h⟩

theorem clock_holds (P : Ink → Prop) {R : World → Prop} :
    Triple (fun w => P w.ink) (clock env) (fun now w => w.now = now ∧ P w.ink) R :=
  Triple.call fun _ h => ⟨rfl, h⟩

theorem executeFrom_holds {k₀ : Ink} (h₀ : MayStart b limits deadline k₀) (calls : List LLMToolCall) (fuel : ℕ)
    (p : Progress) (hp : p.startedCount = p.index) (hindex : p.index ≤ calls.length) :
    Triple (fun w => Started b limits deadline k₀ p.startedCount w.ink) (executeFrom b env calls deadline fuel p)
      (fun q w => q.startedCount ≤ calls.length ∧ Started b limits deadline k₀ q.startedCount w.ink)
      fun w => StartedUpTo b limits deadline k₀ calls.length w.ink := by
  induction fuel generalizing p with
  | zero => exact Triple.pure fun _ h => ⟨by omega, h⟩
  | succ fuel ih =>
    unfold executeFrom
    have hup : ∀ w : World, Started b limits deadline k₀ p.startedCount w.ink →
        StartedUpTo b limits deadline k₀ calls.length w.ink := fun w h => ⟨p.startedCount, by omega, h⟩
    split
    · exact Triple.pure fun _ h => ⟨by omega, h⟩
    · refine Triple.bind (clock_holds env (Started b limits deadline k₀ p.startedCount)) fun now => ?_
      split
      · exact Triple.pure fun _ h => ⟨by show p.startedCount ≤ _; omega, h.2⟩
      · have hgather := gather_holds b env deadline (Started b limits deadline k₀ p.startedCount)
          (calls.drop p.index)
        have hclock : ∀ w : World, w.now = now ∧ Started b limits deadline k₀ p.startedCount w.ink →
            Started b limits deadline k₀ p.startedCount w.ink := fun w h => h.2
        refine Triple.bind (hgather.conseq hclock (fun _ _ h => h) hup) fun batch => ?_
        refine Triple.assume fun hlength => ?_
        rw [List.length_drop] at hlength
        have hafter : ∀ expired : Bool, (afterGather calls p batch.1 expired).startedCount = p.startedCount ∧
            (afterGather calls p batch.1 expired).index = p.index + batch.1.length := by
          intro expired
          cases expired <;> exact ⟨rfl, rfl⟩
        obtain ⟨hcount, hidx⟩ := hafter batch.2
        split
        · have hbatch := runBatch_holds env h₀ p.index batch.1 (afterGather calls p batch.1 batch.2)
          rw [hcount, hidx] at hbatch
          refine Triple.bind (hbatch.conseq (fun _ h => h) (fun _ _ h => h) fun w h => ?_) fun q => ?_
          · obtain ⟨n, hn, hs⟩ := h
            exact ⟨n, by omega, hs⟩
          · refine Triple.assume fun hq => Triple.assume fun hqi => ?_
            exact ih q (by omega) (by omega)
        · next hbatch =>
          have hnil : batch.1.length = 0 := List.length_eq_zero_iff.mpr (not_not.mp hbatch)
          refine Triple.bind (clock_holds env (Started b limits deadline k₀ p.startedCount)) fun now => ?_
          split
          · refine Triple.pure fun w h => ?_
            show (afterGather calls p batch.1 batch.2).startedCount ≤ _ ∧
              Started b limits deadline k₀ (afterGather calls p batch.1 batch.2).startedCount _
            rw [hcount]
            exact ⟨by omega, h.2⟩
          · next hnow =>
            split
            · next call hcall =>
              have hlt : p.index < calls.length := (List.getElem?_eq_some_iff.mp hcall).1
              have halone := runAlone_holds env h₀ call (afterGather calls p batch.1 batch.2)
              rw [hcount, hidx, hnil, Nat.add_zero] at halone
              have hready : ∀ w : World, w.now = now ∧ Started b limits deadline k₀ p.startedCount w.ink →
                  w.now < deadline ∧ Started b limits deadline k₀ p.startedCount w.ink :=
                fun w h => ⟨by rw [h.1]; exact not_le.mp hnow, h.2⟩
              refine Triple.bind (halone.conseq hready (fun _ _ h => h) fun w h => ?_) fun q => ?_
              · obtain ⟨n, hn, hs⟩ := h
                exact ⟨n, by omega, hs⟩
              · refine Triple.assume fun hq => Triple.assume fun hqi => ?_
                exact ih q (by omega) (by omega)
            · exact Triple.pure fun _ h => ⟨by omega, h.2⟩

theorem execute_holds {k₀ : Ink} (h₀ : MayStart b limits deadline k₀) (calls : List LLMToolCall) :
    Triple (fun w => Started b limits deadline k₀ 0 w.ink) (execute b env calls deadline)
      (fun s w => s.startedCount ≤ calls.length ∧ Started b limits deadline k₀ s.startedCount w.ink)
      fun w => StartedUpTo b limits deadline k₀ calls.length w.ink := by
  have hrun := executeFrom_holds env h₀ calls (calls.length + 1) { results := List.replicate calls.length none }
    rfl (Nat.zero_le _)
  refine Triple.bind hrun fun p => ?_
  unfold scheduled
  split
  · exact Triple.raise fun _ h => ⟨p.startedCount, h.1, h.2⟩
  · exact Triple.pure fun _ h => h

theorem appendToolExchange_holds {P Q E : Ink → Prop} (response : LLMResponse) (results : List LLMToolResult)
    (startedCount : ℕ) (hPE : ∀ k, P k → E k) (hQE : ∀ k, Q k → E k)
    (hPQ : ∀ k, P k → Q { k with toolCalls := k.toolCalls + startedCount }) :
    Triple (fun w => P w.ink) (appendToolExchange env response results startedCount) (fun _ w => Q w.ink)
      fun w => E w.ink := by
  unfold appendToolExchange
  split
  · exact Triple.raise fun w h => hPE _ h
  · split
    · exact Triple.raise fun w h => hPE _ h
    · refine Triple.bind (((appendMessages_quiet _).triple P).conseq (fun _ h => h) (fun _ _ h => h)
        fun w h => hPE _ h) fun _ => ?_
      refine Triple.bind (Q := fun _ w => Q w.ink) (Triple.modify fun w h => hPQ _ h) fun _ => ?_
      exact ((recordToolResults_quiet env _).triple Q).conseq (fun _ h => h) (fun _ _ h => h) fun w h => hQE _ h

theorem rejectAll_holds (response : LLMResponse) (code message : Text) {P : Ink → Prop}
    {last : Prog World Fault (Option AgentSessionResult)}
    (hlast : Triple (fun w => Closing b limits deadline w.ink) last (Outcome b limits deadline P)
      fun w => Closing b limits deadline w.ink) :
    Triple (fun w => Closing b limits deadline w.ink) (rejectAll env response code message last)
      (Outcome b limits deadline P) fun w => Closing b limits deadline w.ink := by
  refine Triple.bind (appendToolExchange_holds (Q := Closing b limits deadline) env response _ 0 (fun _ h => h)
    (fun _ h => h) fun _ h => h) fun _ => ?_
  exact orSinkError_holds env (fun _ h => h) response.model (fun _ h => h) hlast

theorem rejectAndFinish_holds (response : LLMResponse) (code message : Text) (termination : AgentTermination)
    (hne : termination ≠ .completed) (finalMessage : Text) (P : Ink → Prop) :
    Triple (fun w => Closing b limits deadline w.ink)
      (rejectAll env response code message (finishing env termination finalMessage response.model))
      (Outcome b limits deadline P) fun w => Ended b limits deadline w.ink :=
  (rejectAll_holds env response code message (finishing_holds env termination finalMessage response.model
    (fun _ h => h) (fun h => absurd h hne) P)).raising _ fun _ h => h.toEnded

section
variable {k₀ : Ink} {n : ℕ} (hk₀ : Between b limits deadline 0 n k₀)
include hk₀

/-- A scheduler that raised after it had started `started` calls leaves them out of the lifetime count. -/
theorem schedulerRaised_closing {k : Ink} {started : ℕ} (hk : Started b limits deadline k₀ started k)
    (hroom : invocationsIn k₀.log + started ≤ limits.maxToolCalls) :
    Closing b limits deadline { k with log := .schedulerRaised started :: k.log } := by
  have hclosing := hk₀.closing
  refine ⟨⟨?_, ?_, ?_, ?_⟩, ?_, ?_, ?_⟩
  · exact hk.queries.trans_le hclosing.queries
  · exact hk.responses.trans_le hclosing.responses
  · exact hk.invocations.trans_le hroom
  · intro h
    exact ⟨nofun, hk.admitted h.2⟩
  · intro h
    have hzero : started = 0 := h.1
    subst hzero
    have hsame := hk.same
    constructor
    · show k.turns = k.before.turns + responsesIn k.log
      rw [hk.responses, hsame]
      exact hk₀.books.turns
    · show k.toolCalls = k.before.toolCalls + invocationsIn k.log
      rw [hk.invocations, hsame]
      exact hk₀.books.calls
    · show k.costUsd = k.before.costUsd + costIn k.log
      rw [hk.cost, hsame]
      exact hk₀.books.cost
  · show k.turns ≤ k.before.turns + limits.maxTurns
    rw [hk.same]
    exact hclosing.turns_le
  · show k.toolCalls ≤ k.before.toolCalls + limits.maxToolCalls
    rw [hk.same]
    exact hclosing.toolCalls_le

theorem Started.exchanged {k : Ink} {started : ℕ} (hk : Started b limits deadline k₀ started k)
    (hroom : invocationsIn k₀.log + started ≤ limits.maxToolCalls) :
    Between b limits deadline 0 n { k with toolCalls := k.toolCalls + started } := by
  have hsame := hk.same
  refine ⟨⟨?_, ?_, ?_⟩, ?_, ?_, ?_, ?_, ?_, ?_, hk.admitted, ?_, ?_⟩
  · show k.turns = k.before.turns + responsesIn k.log
    rw [hk.responses, hsame]
    exact hk₀.books.turns
  · show k.toolCalls + started = k.before.toolCalls + invocationsIn k.log
    have hcalls := hk₀.books.calls
    rw [hk.invocations, hsame]
    show k₀.toolCalls + started = k₀.before.toolCalls + (invocationsIn k₀.log + started)
    omega
  · show k.costUsd = k.before.costUsd + costIn k.log
    rw [hk.cost, hsame]
    exact hk₀.books.cost
  · show k.deadline = deadline
    rw [hsame]
    exact hk₀.deadline_eq
  · show k.recoveries = cutOffIn k.log
    rw [hk.cutOff, hsame]
    exact hk₀.recoveries
  · show queriesIn k.log = responsesIn k.log + k.toolCallRecoveries + 0
    rw [hk.queries, hk.responses, hsame]
    exact hk₀.queries
  · show k.toolCallRecoveries ≤ maxToolCallRecoveries
    rw [hsame]
    exact hk₀.recoveries_le
  · show responsesIn k.log + 0 ≤ limits.maxTurns
    rw [hk.responses]
    exact hk₀.turns_le
  · exact hk.invocations.trans_le hroom
  · intro h m hm
    show tokensIn k.log < m
    rw [hk.tokens]
    exact hk₀.tokens (hk.steady h) m hm
  · exact hk.queries.trans hk₀.count

theorem Started.ended {k : Ink} {started : ℕ} (hk : Started b limits deadline k₀ started k)
    (hroom : invocationsIn k₀.log + started ≤ limits.maxToolCalls) : Ended b limits deadline k :=
  ⟨hk.queries.trans_le hk₀.closing.queries, hk.responses.trans_le hk₀.closing.responses,
    hk.invocations.trans_le hroom, hk.admitted⟩

end

theorem afterExchange_holds (response : LLMResponse) (timedOut anyRejected : Bool) (n : ℕ) :
    Triple (fun w => Between b limits deadline 0 n w.ink) (afterExchange env response deadline timedOut anyRejected)
      (Outcome b limits deadline (Between b limits deadline 0 n)) fun w => Closing b limits deadline w.ink := by
  have hfinish : ∀ termination : AgentTermination, Triple (fun w => Between b limits deadline 0 n w.ink)
      (finishing env termination [] response.model) (Outcome b limits deadline (Between b limits deadline 0 n))
      fun w => Closing b limits deadline w.ink :=
    fun termination => finishing_holds env termination [] response.model (fun _ h => h.closing) (fun _ _ h => h.books) _
  unfold afterExchange
  split
  · exact hfinish _
  · refine Triple.bind (((clock_quiet env).triple (Between b limits deadline 0 n)).conseq (fun _ h => h)
      (fun _ _ h => h) fun _ h => h.closing) fun now => ?_
    split
    · exact hfinish _
    · split
      · exact hfinish _
      · exact Triple.pure fun _ h => h

theorem exchanged_holds (response : LLMResponse) (timedOut anyRejected : Bool) (n : ℕ) :
    Triple (fun w => Between b limits deadline 0 n w.ink)
      (orSinkError env response.model (afterExchange env response deadline timedOut anyRejected))
      (Outcome b limits deadline (Between b limits deadline 0 n)) fun w => Closing b limits deadline w.ink :=
  orSinkError_holds env (fun _ h => h.closing) response.model (fun _ h => h)
    (afterExchange_holds env response timedOut anyRejected n)

theorem runTools_holds (response : LLMResponse) (admitted rejected : List LLMToolCall) (n : ℕ) :
    Triple (fun w => Between b limits deadline 0 n w.ink ∧ CostOpen limits w.log ∧
        invocationsIn w.log + admitted.length ≤ limits.maxToolCalls)
      (runTools b env response deadline admitted rejected)
      (Outcome b limits deadline (Between b limits deadline 0 n)) fun w => Ended b limits deadline w.ink := by
  intro w hw
  obtain ⟨hbetween, hcost, hroom⟩ := hw
  have h₀ : MayStart b limits deadline w.ink := ⟨hcost, hbetween.tokens, hbetween.admitted⟩
  unfold runTools
  rw [Prog.bind_ok (Prog.get_run (w := w))]
  have hattempt := Triple.attempt (fun w => Ended b limits deadline w.ink) (execute_holds env h₀ admitted)
  refine Triple.bind hattempt (fun outcome => ?_) w (Started.none h₀)
  intro w' hw'
  rw [Prog.bind_ok (Prog.get_run (w := w'))]
  cases hw' with
  | inl hok =>
    obtain ⟨s, rfl, hle, hstarted⟩ := hok
    have hfit : invocationsIn w.ink.log + s.startedCount ≤ limits.maxToolCalls :=
      le_trans (Nat.add_le_add_left hle _) hroom
    have happend := appendToolExchange_holds (P := Started b limits deadline w.ink s.startedCount)
      (Q := Between b limits deadline 0 n) (E := Ended b limits deadline) env response
      (s.results ++ syntheticResults rejected "tool-limit".toList
        "tool call was not executed because the run tool budget was exhausted".toList) s.startedCount
      (fun _ hk => hk.ended hbetween hfit) (fun _ hk => hk.closing.toEnded) fun _ hk => hk.exchanged hbetween hfit
    refine Triple.bind happend (fun _ => ?_) w' hstarted
    exact (exchanged_holds env response s.timedOut (!rejected.isEmpty) n).raising _ fun _ h => h.toEnded
  | inr herror =>
    obtain ⟨e, rfl, m, hle, hstarted⟩ := herror
    have hfit : invocationsIn w.ink.log + m ≤ limits.maxToolCalls := le_trans (Nat.add_le_add_left hle _) hroom
    have hcount : invocationsIn w'.log - invocationsIn w.log = m := by
      have hinv : invocationsIn w'.log = invocationsIn w.log + m := hstarted.invocations
      omega
    rw [hcount]
    refine Triple.bind (Q := fun _ w => Closing b limits deadline w.ink) (P := fun v => v = w')
      (Triple.modify fun v hv => ?_) (fun _ => rejectAndFinish_holds env response _ _ .backendError nofun _ _) w' rfl
    subst hv
    exact schedulerRaised_closing hbetween hstarted hfit

theorem admitTools_holds (response : LLMResponse) (remaining n : ℕ) :
    Triple (fun w => Between b limits deadline 0 n w.ink ∧ CostOpen limits w.log ∧
        invocationsIn w.log + remaining ≤ limits.maxToolCalls)
      (admitTools b env response deadline remaining)
      (Outcome b limits deadline (Between b limits deadline 0 n)) fun w => Ended b limits deadline w.ink := by
  have hrecord := (recordToolCalls_quiet env response.toolCalls).triple fun k => Between b limits deadline 0 n k ∧
    CostOpen limits k.log ∧ invocationsIn k.log + remaining ≤ limits.maxToolCalls
  refine Triple.bind (hrecord.conseq (fun _ h => h) (fun _ _ h => h) fun _ h => h.1.closing.toEnded) fun _ => ?_
  intro w hw
  rw [Prog.bind_ok (Prog.get_run (w := w))]
  cases w.run.sinkError with
  | some error =>
    exact rejectAndFinish_holds env response _ _ .backendError nofun _ _ w hw.1.closing
  | none =>
    have hle : (response.toolCalls.take remaining).length ≤ remaining := List.length_take_le _ _
    have hroom := le_trans (Nat.add_le_add_left hle _) hw.2.2
    exact runTools_holds env response _ (response.toolCalls.drop remaining) n w ⟨hw.1, hw.2.1, hroom⟩

theorem costOpen_of_not_over {u : UsageSnapshot} {log : List Happening} (hu : u.costUsd = costIn log)
    (h : ¬overCost limits u = true) : CostOpen limits log := by
  intro m hm
  unfold overCost at h
  rw [hm] at h
  rw [← hu]
  exact not_le.mp fun hle => h (decide_eq_true hle)

theorem handleToolCalls_holds (response : LLMResponse) (n : ℕ) :
    Triple (fun w => Between b limits deadline 0 n w.ink) (handleToolCalls b env limits response)
      (Outcome b limits deadline (Between b limits deadline 0 n)) fun w => Ended b limits deadline w.ink := by
  have hreject : ∀ (code message : Text) (termination : AgentTermination), termination ≠ .completed →
      Triple (fun w => Between b limits deadline 0 n w.ink)
        (recordToolCalls env response.toolCalls >>= fun _ =>
          rejectAll env response code message (finishing env termination [] response.model))
        (Outcome b limits deadline (Between b limits deadline 0 n)) fun w => Ended b limits deadline w.ink := by
    intro code message termination hne
    have hrecord := (recordToolCalls_quiet env response.toolCalls).triple (Closing b limits deadline)
    refine Triple.bind (hrecord.conseq (fun _ h => h.closing) (fun _ _ h => h) fun _ h => h.toEnded) fun _ => ?_
    exact rejectAndFinish_holds env response code message termination hne [] _
  have hend : ∀ w : World, Between b limits deadline 0 n w.ink → Ended b limits deadline w.ink :=
    fun w h => h.closing.toEnded
  refine Triple.bind ((usage_holds (Between b limits deadline 0 n)).conseq (fun _ h => h) (fun _ _ h => h) hend)
    fun u => ?_
  refine Triple.bind (Q := fun v w => v.run.deadline = deadline ∧ IsUsage u w.ink ∧ Between b limits deadline 0 n w.ink)
    (Triple.get fun w h => ⟨h.2.deadline_eq, h⟩) fun v => Triple.assume fun hdeadline => ?_
  refine Triple.bind (Q := fun _ w => IsUsage u w.ink ∧ Between b limits deadline 0 n w.ink)
    (Triple.call fun _ h => h) fun now => ?_
  rw [hdeadline]
  split
  · exact (hreject _ _ .timeout nofun).weaken fun _ h => h.2
  · split
    · exact (hreject _ _ .costLimit nofun).weaken fun _ h => h.2
    · next hcost =>
      refine (admitTools_holds env response (limits.maxToolCalls - u.toolCalls) n).weaken fun w h => ?_
      have husage := h.2.books.usage h.1
      have hle := h.2.calls_le
      have hcalls : u.toolCalls = invocationsIn w.log := husage.2.1
      have hroom : invocationsIn w.log + (limits.maxToolCalls - u.toolCalls) ≤ limits.maxToolCalls := by
        rw [hcalls]
        exact le_of_eq (Nat.add_sub_cancel' hle)
      exact ⟨h.2, costOpen_of_not_over husage.2.2 hcost, hroom⟩

variable (b limits deadline) in
def Lets (P : Ink → Prop) (m : Prog World Fault (Option AgentSessionResult)) : Prop :=
  Triple (fun w => P w.ink) m (Outcome b limits deadline P) fun w => Closing b limits deadline w.ink

section
variable {P : Ink → Prop} (hP : ∀ k, P k → Closing b limits deadline k)
include hP

theorem lets_finish (termination : AgentTermination) (hne : termination ≠ .completed) (finalMessage model : Text) :
    Lets b limits deadline P (finishing env termination finalMessage model) :=
  finishing_holds env termination finalMessage model hP (fun h => absurd h hne) P

theorem lets_bind {α : Type} {m : Prog World Fault α} {f : α → Prog World Fault (Option AgentSessionResult)}
    (hm : Quiet m) (hf : ∀ a, Lets b limits deadline P (f a)) :
    Lets b limits deadline P (m >>= f) :=
  Triple.bind ((hm.triple P).conseq (fun _ h => h) (fun _ _ h => h) fun _ h => hP _ h) hf

theorem prepareContext_lets : Lets b limits deadline P (prepareContext b env) := by
  have hpure : Lets b limits deadline P (pure none) := Triple.pure fun _ h => h
  refine lets_bind hP (estimateInputTokens_quiet env) fun before => ?_
  split
  · exact hpure
  · refine lets_bind hP .get fun w => ?_
    dsimp only
    split
    · exact hpure
    · split
      · exact lets_finish env hP .contextLimit nofun _ _
      · refine lets_bind hP (compactFrom_quiet b env _ _ _) fun c => ?_
        unfold afterCompaction
        split
        · exact hpure
        · split
          · exact lets_finish env hP .contextLimit nofun _ _
          · refine lets_bind hP (recordEvent_quiet env _ _ _ _) fun _ => orSinkError_holds env hP _ (fun _ h => h) ?_
            split
            · exact lets_finish env hP .contextLimit nofun _ _
            · exact hpure

end

variable (b limits deadline) in
def MayAsk (n : ℕ) (k : Ink) : Prop :=
  Between b limits deadline 0 n k ∧ responsesIn k.log < limits.maxTurns ∧ CostOpen limits k.log

theorem admitModelQuery_holds (n : ℕ) :
    Triple (fun w => Between b limits deadline 0 n w.ink) (admitModelQuery b env limits)
      (Outcome b limits deadline (MayAsk b limits deadline n)) fun w => Closing b limits deadline w.ink := by
  have hclosing : ∀ w : World, Between b limits deadline 0 n w.ink → Closing b limits deadline w.ink :=
    fun w h => h.closing
  have hfinish : ∀ (termination : AgentTermination) (u : UsageSnapshot),
      Triple (fun w => IsUsage u w.ink ∧ Between b limits deadline 0 n w.ink) (finishing env termination [] b.model)
        (Outcome b limits deadline (MayAsk b limits deadline n)) fun w => Closing b limits deadline w.ink :=
    fun termination u => finishing_holds env termination [] b.model (R := fun k => IsUsage u k ∧ Between b limits deadline 0 n k)
      (fun _ h => h.2.closing) (fun _ _ h => h.2.books) _
  refine Triple.bind ((usage_holds (Between b limits deadline 0 n)).conseq (fun _ h => h) (fun _ _ h => h) hclosing)
    fun u => ?_
  refine Triple.bind (Q := fun _ w => IsUsage u w.ink ∧ Between b limits deadline 0 n w.ink)
    (Triple.get fun w h => h) fun v => ?_
  refine Triple.bind (Q := fun _ w => IsUsage u w.ink ∧ Between b limits deadline 0 n w.ink)
    (Triple.call fun _ h => h) fun now => ?_
  split
  · exact hfinish _ u
  · split
    · exact hfinish _ u
    · next hturns =>
      split
      · exact hfinish _ u
      · next hcost =>
        have hlets : Lets b limits deadline (MayAsk b limits deadline n) (prepareContext b env) :=
          prepareContext_lets env fun _ h => h.1.closing
        refine Triple.weaken hlets fun w h => ⟨h.2, ?_, ?_⟩
        · have hused : u.turns = responsesIn w.log := (h.2.books.usage h.1).1
          show responsesIn w.log < limits.maxTurns
          omega
        · exact costOpen_of_not_over (h.2.books.usage h.1).2.2 hcost

theorem admission_holds (n : ℕ) :
    Triple (fun w => Between b limits deadline 0 n w.ink) (admission b env limits)
      (Outcome b limits deadline (MayAsk b limits deadline n)) fun w => Closing b limits deadline w.ink := by
  refine Triple.rescue (admitModelQuery_holds env n) fun e handle he => ?_
  cases e with
  | billing m => exact nomatch he
  | value m => cases he; exact finishing_holds env .backendError _ _ (fun _ h => h) nofun _
  | runtime m => cases he; exact finishing_holds env .backendError _ _ (fun _ h => h) nofun _
  | other d => cases he; exact finishing_holds env .backendError _ _ (fun _ h => h) nofun _

theorem MayAsk.query {n : ℕ} {k : Ink} {time : ℚ≥0} (hk : MayAsk b limits deadline n k) (htime : time < deadline) :
    Between b limits deadline 1 (n + 1) { k with log := .query time :: k.log } := by
  obtain ⟨hbetween, hturns, hcost⟩ := hk
  refine ⟨⟨hbetween.books.turns, hbetween.books.calls, hbetween.books.cost⟩, hbetween.deadline_eq,
    hbetween.recoveries, ?_, hbetween.recoveries_le, hturns, hbetween.calls_le, ?_, fun h => hbetween.tokens h.2, ?_⟩
  · have h := hbetween.queries
    show queriesIn k.log + 1 = responsesIn k.log + k.toolCallRecoveries + 1
    omega
  · intro h
    refine ⟨fun time' htime' => ?_, hbetween.admitted h.2⟩
    have heq : time = time' := Option.some.inj htime'
    rw [← heq]
    exact ⟨htime, hcost, hbetween.tokens h.2⟩
  · exact congrArg (· + 1) hbetween.count

theorem Between.recovered {n : ℕ} {k : Ink} (hk : Between b limits deadline 1 n k)
    (hleft : ¬maxToolCallRecoveries ≤ k.toolCallRecoveries) :
    Between b limits deadline 0 n { k with toolCallRecoveries := k.toolCallRecoveries + 1 } := by
  refine ⟨⟨hk.books.turns, hk.books.calls, hk.books.cost⟩, hk.deadline_eq, hk.recoveries, ?_, ?_, ?_, hk.calls_le,
    hk.admitted, hk.tokens, hk.count⟩
  · have h := hk.queries
    show queriesIn k.log = responsesIn k.log + (k.toolCallRecoveries + 1) + 0
    omega
  · show k.toolCallRecoveries + 1 ≤ maxToolCallRecoveries
    omega
  · have h := hk.turns_le
    show responsesIn k.log + 0 ≤ limits.maxTurns
    omega

theorem recoverMalformedToolCall_holds (error : Text) (n : ℕ) :
    Triple (fun w => Between b limits deadline 1 n w.ink) (recoverMalformedToolCall b env error)
      (Outcome b limits deadline (Between b limits deadline 0 n)) fun w => Closing b limits deadline w.ink := by
  refine Triple.bind (Q := fun v w => v.run.toolCallRecoveries = w.ink.toolCallRecoveries ∧
    Between b limits deadline 1 n w.ink) (Triple.get fun w h => ⟨rfl, h⟩) fun v => ?_
  split
  · exact finishing_holds env _ _ _
      (R := fun k => v.run.toolCallRecoveries = k.toolCallRecoveries ∧ Between b limits deadline 1 n k)
      (fun _ h => h.2.closing) (fun _ _ h => h.2.books) _
  · next hleft =>
    refine Triple.bind (Q := fun _ w => Between b limits deadline 0 n w.ink)
      (Triple.modify fun w h => h.2.recovered (by rw [← h.1]; exact hleft)) fun _ => ?_
    have hlets : Lets b limits deadline (Between b limits deadline 0 n)
        (appendMessages [.user (malformedToolCallRetry error)] >>= fun _ =>
          recordEvent env .recovery none none (malformedToolCallRetry error) >>= fun _ =>
            orSinkError env b.model (pure none)) := by
      refine lets_bind (fun _ h => h.closing) (appendMessages_quiet _) fun _ => ?_
      refine lets_bind (fun _ h => h.closing) (recordEvent_quiet env _ _ _ _) fun _ => ?_
      exact orSinkError_holds env (fun _ h => h.closing) _ (fun _ h => h) (Triple.pure fun _ h => h)
    exact hlets

variable (b limits deadline) in
/-- The accounts after a response, before the runtime has decided what to do with it. -/
structure Heard (r : LLMResponse) (n : ℕ) (past : List Happening) (k : Ink) : Prop where
  log_eq : k.log = .answered r :: past
  books : Books k
  deadline_eq : k.deadline = deadline
  recoveries : k.recoveries = cutOffIn past
  queries : queriesIn k.log = responsesIn k.log + k.toolCallRecoveries
  recoveries_le : k.toolCallRecoveries ≤ maxToolCallRecoveries
  turns_le : responsesIn k.log ≤ limits.maxTurns
  calls_le : invocationsIn k.log ≤ limits.maxToolCalls
  admitted : Steady b.maxParallelTools limits deadline k.log → Admitted b.maxParallelTools limits deadline k.log
  tokens : Steady b.maxParallelTools limits deadline k.log → AsksMore r past →
    ∀ m, limits.maxTokens = some m → tokensIn k.log < m
  count : queriesIn k.log = n

theorem Heard.closing {r : LLMResponse} {n : ℕ} {past : List Happening} {k : Ink}
    (hk : Heard b limits deadline r n past k) : Closing b limits deadline k := by
  have hqueries := hk.queries
  have hrecoveries := hk.recoveries_le
  have hturns := hk.turns_le
  have hcalls := hk.calls_le
  refine ⟨⟨by omega, hturns, hcalls, hk.admitted⟩, fun _ => hk.books, ?_, ?_⟩
  · rw [hk.books.turns]
    omega
  · rw [hk.books.calls]
    omega

theorem Between.heard {n : ℕ} {k : Ink} (hk : Between b limits deadline 1 n k) (r : LLMResponse) :
    Heard b limits deadline r n k.log
      { k with log := .answered r :: k.log, turns := k.turns + 1, costUsd := k.costUsd + r.cost } := by
  refine ⟨rfl, ⟨?_, hk.books.calls, ?_⟩, hk.deadline_eq, hk.recoveries, ?_, hk.recoveries_le, hk.turns_le,
    hk.calls_le, fun h => ⟨nofun, hk.admitted h.2⟩, fun h hasks m hm => h.1 hasks m hm, hk.count⟩
  · have h := hk.books.turns
    show k.turns + 1 = k.before.turns + (responsesIn k.log + 1)
    omega
  · show k.costUsd + r.cost = k.before.costUsd + (costIn k.log + r.cost)
    rw [hk.books.cost, add_assoc]
  · have h := hk.queries
    show queriesIn k.log = responsesIn k.log + 1 + k.toolCallRecoveries
    omega

theorem Heard.toolCalls {r : LLMResponse} {n : ℕ} {past : List Happening} {k : Ink}
    (hk : Heard b limits deadline r n past k) (hstop : r.stopReason = .toolCalls) :
    Between b limits deadline 0 n k := by
  refine ⟨hk.books, hk.deadline_eq, ?_, hk.queries, hk.recoveries_le, hk.turns_le, hk.calls_le, hk.admitted,
    fun h => hk.tokens h (.inl hstop), hk.count⟩
  have hne : ¬r.stopReason = .maxTokens := by
    rw [hstop]
    decide
  rw [hk.recoveries, hk.log_eq, cutOffIn, if_neg hne]

theorem Heard.continued {r : LLMResponse} {n : ℕ} {past : List Happening} {k : Ink}
    (hk : Heard b limits deadline r n past k) (hstop : r.stopReason = .maxTokens) (htext : ¬isBlank r.text = true)
    (hfirst : ¬1 ≤ k.recoveries) : Between b limits deadline 0 n { k with recoveries := k.recoveries + 1 } := by
  have hzero : cutOffIn past = 0 := by
    have h := hk.recoveries
    omega
  refine ⟨⟨hk.books.turns, hk.books.calls, hk.books.cost⟩, hk.deadline_eq, ?_, hk.queries, hk.recoveries_le,
    hk.turns_le, hk.calls_le, hk.admitted, fun h => hk.tokens h (.inr ⟨hstop, Bool.not_eq_true _ ▸ htext, hzero⟩),
    hk.count⟩
  show k.recoveries + 1 = cutOffIn k.log
  rw [hk.recoveries, hk.log_eq, cutOffIn, if_pos hstop]

theorem decideStop_holds (r : LLMResponse) (n : ℕ) (past : List Happening) (recoveries : ℕ) :
    Triple (fun w => w.run.recoveries = recoveries ∧ Heard b limits deadline r n past w.ink)
      (decideStop env r recoveries) (Outcome b limits deadline (Between b limits deadline 0 n))
      fun w => Closing b limits deadline w.ink := by
  have hfinish : ∀ (termination : AgentTermination) (message : Text),
      Triple (fun w => w.run.recoveries = recoveries ∧ Heard b limits deadline r n past w.ink)
        (finishing env termination message r.model) (Outcome b limits deadline (Between b limits deadline 0 n))
        fun w => Closing b limits deadline w.ink :=
    fun termination message => (finishing_holds env termination message r.model
      (R := Heard b limits deadline r n past) (fun _ h => h.closing) (fun _ _ h => h.books) _).weaken fun _ h => h.2
  unfold decideStop
  cases hstop : r.stopReason with
  | completed =>
    show Triple _ (if _ then _ else _) _ _
    split
    · exact hfinish _ _
    · exact hfinish _ _
  | refusal => exact hfinish _ _
  | contentFilter => exact hfinish _ _
  | toolCalls => exact hfinish _ _
  | maxTokens =>
    show Triple _ (if _ then _ else if _ then _ else _) _ _
    split
    · exact hfinish _ _
    · next htext =>
      split
      · exact hfinish _ _
      · next hfirst =>
        refine Triple.bind (Q := fun _ w => Between b limits deadline 0 n w.ink)
          (Triple.modify fun w h => h.2.continued hstop htext (by rw [← h.1] at hfirst; exact hfirst)) fun _ => ?_
        have hlets : Lets b limits deadline (Between b limits deadline 0 n)
            (changeSession (fun s => { s with outputRecoveries := s.outputRecoveries + 1 }) >>= fun _ =>
              appendMessages [.user maxTokensContinuation] >>= fun _ =>
                recordEvent env .recovery none none maxTokensContinuation >>= fun _ =>
                  orSinkError env r.model (pure none)) := by
          refine lets_bind (fun _ h => h.closing) (fun _ => rfl) fun _ => ?_
          refine lets_bind (fun _ h => h.closing) (appendMessages_quiet _) fun _ => ?_
          refine lets_bind (fun _ h => h.closing) (recordEvent_quiet env _ _ _ _) fun _ => ?_
          exact orSinkError_holds env (fun _ h => h.closing) _ (fun _ h => h) (Triple.pure fun _ h => h)
        exact hlets

theorem handleText_holds (r : LLMResponse) (n : ℕ) (past : List Happening) :
    Triple (fun w => Heard b limits deadline r n past w.ink) (handleText env r)
      (Outcome b limits deadline (Between b limits deadline 0 n)) fun w => Closing b limits deadline w.ink := by
  have htext := ((appendText_quiet r).triple (Heard b limits deadline r n past)).raising
    (fun w => Closing b limits deadline w.ink) fun _ h => h.closing
  refine Triple.bind (Q := fun _ w => Heard b limits deadline r n past w.ink) (Triple.get fun _ h => h) fun v => ?_
  refine Triple.bind (Q := fun _ w => Heard b limits deadline r n past w.ink) (Triple.call fun _ h => h) fun now => ?_
  split
  · exact Triple.bind htext fun _ => finishing_holds env _ _ _ (fun _ h => h.closing) (fun _ _ h => h.books) _
  · refine Triple.bind htext fun _ => ?_
    intro w hw
    rw [Prog.bind_ok (Prog.get_run (w := w))]
    exact decideStop_holds env r n past w.run.recoveries w ⟨rfl, hw⟩

theorem handleResponse_holds (r : LLMResponse) (n : ℕ) :
    Triple (fun w => Between b limits deadline 1 n w.ink) (handleResponse b env limits r)
      (Outcome b limits deadline (Between b limits deadline 0 n)) fun w => Ended b limits deadline w.ink := by
  intro w hw
  -- what happens before the event is recorded, in one state
  have hheard : Triple (fun v => v = w) (happen (.answered r) >>= fun _ => recordModelResponse env r)
      (fun _ v => Heard b limits deadline r n w.log v.ink) fun v => Ended b limits deadline v.ink := by
    refine Triple.bind (Q := fun _ v => v = { w with log := .answered r :: w.log }) (Triple.modify ?_) fun _ => ?_
    · intro v hv
      rw [hv]
    · refine Triple.bind (Q := fun _ v => Heard b limits deadline r n w.log v.ink) (Triple.modify ?_) fun _ => ?_
      · intro v hv
        rw [hv]
        exact hw.heard r
      · exact ((recordEvent_quiet env _ _ _ _).triple (Heard b limits deadline r n w.log)).conseq (fun _ h => h)
          (fun _ _ h => h) fun _ h => h.closing.toEnded
  have hrest : Triple (fun v => Heard b limits deadline r n w.log v.ink)
      (orSinkError env r.model
        (if r.stopReason = .toolCalls then handleToolCalls b env limits r else handleText env r))
      (Outcome b limits deadline (Between b limits deadline 0 n)) fun v => Ended b limits deadline v.ink := by
    refine orSinkError_holds env (fun _ h => h.closing) r.model (fun _ h => h.toEnded) ?_
    split
    · next hstop => exact (handleToolCalls_holds env r n).weaken fun _ h => h.toolCalls hstop
    · exact (handleText_holds env r n w.log).conseq (fun _ h => h) (fun _ _ h => h) fun _ h => h.toEnded
  have hall := Triple.bind hheard fun _ => hrest
  rw [bind_assoc] at hall
  exact hall w rfl

theorem handleAnswer_holds (answer : Answer) (n : ℕ) :
    Triple (fun w => Between b limits deadline 1 n w.ink) (handleAnswer b env limits answer)
      (Outcome b limits deadline (Between b limits deadline 0 n)) fun w => Ended b limits deadline w.ink := by
  have hfinish : ∀ (termination : AgentTermination) (message : Text),
      Triple (fun w => Between b limits deadline 1 n w.ink) (finishing env termination message b.model)
        (Outcome b limits deadline (Between b limits deadline 0 n)) fun w => Ended b limits deadline w.ink :=
    fun termination message => (finishing_holds env termination message b.model (fun _ h => h.closing)
      (fun _ _ h => h.books) _).raising _ fun _ h => h.toEnded
  have hfailed : ∀ error : Text, Triple (fun w => Between b limits deadline 1 n w.ink) (queryFailed b env error)
      (Outcome b limits deadline (Between b limits deadline 0 n)) fun w => Ended b limits deadline w.ink := by
    intro error
    refine Triple.bind (Q := fun _ w => Between b limits deadline 1 n w.ink) (Triple.get fun _ h => h) fun v => ?_
    refine Triple.bind (Q := fun _ w => Between b limits deadline 1 n w.ink) (Triple.call fun _ h => h) fun now => ?_
    exact hfinish _ _
  cases answer with
  | response r => exact handleResponse_holds env r n
  | malformed error =>
    exact (recoverMalformedToolCall_holds env error n).conseq (fun _ h => h) (fun _ _ h => h) fun _ h => h.toEnded
  | protocolError error => exact hfinish _ _
  | transient error => exact hfailed error
  | billing error => exact Triple.raise fun _ h => h.closing.toEnded
  | other described => exact hfailed described

theorem queryModel_holds (n : ℕ) :
    Triple (fun w => MayAsk b limits deadline n w.ink) (queryModel b env limits)
      (Outcome b limits deadline (Between b limits deadline 0 (n + 1))) fun w => Ended b limits deadline w.ink := by
  refine Triple.bind (Q := fun v w => v.run.deadline = deadline ∧ MayAsk b limits deadline n w.ink)
    (Triple.get fun w h => ⟨h.1.deadline_eq, h⟩) fun v => Triple.assume fun hdeadline => ?_
  refine Triple.bind (clock_holds env (MayAsk b limits deadline n)) fun now => ?_
  rw [hdeadline]
  split
  · exact (finishing_holds env _ _ _ (fun _ h => h.1.closing) (fun _ _ h => h.1.books) _).conseq (fun _ h => h.2)
      (fun _ _ h => h) fun _ h => h.toEnded
  · next hnow =>
    refine Triple.bind (Q := fun _ w => Between b limits deadline 1 (n + 1) w.ink) ?_
      fun answer => handleAnswer_holds env answer (n + 1)
    refine Triple.bind (Q := fun _ w => Between b limits deadline 1 (n + 1) w.ink) (Triple.modify fun w h => ?_)
      fun _ => ?_
    · exact h.2.query (by rw [h.1]; exact not_le.mp hnow)
    · exact Triple.bind (Q := fun _ w => Between b limits deadline 1 (n + 1) w.ink) (Triple.call fun _ h => h)
        fun reply => Triple.pure fun _ h => h

theorem turn_holds (n : ℕ) :
    Triple (fun w => Between b limits deadline 0 n w.ink) (turn b env limits)
      (Outcome b limits deadline (Between b limits deadline 0 (n + 1))) fun w => Ended b limits deadline w.ink := by
  refine Triple.bind ((admission_holds env n).conseq (fun _ h => h) (fun _ _ h => h) fun _ h => h.toEnded)
    fun admitted => ?_
  cases admitted with
  | some r => exact Triple.pure fun _ h => h
  | none => exact queryModel_holds env n

/-- Every round that goes on has made one more query, so the rounds run out of queries first. -/
theorem rounds_hold (n fuel : ℕ) (hfuel : limits.maxTurns + maxToolCallRecoveries < n + fuel) :
    Triple (fun w => Between b limits deadline 0 n w.ink) (rounds b env limits fuel)
      (Outcome b limits deadline fun _ => False) fun w => Ended b limits deadline w.ink := by
  induction fuel generalizing n with
  | zero =>
    refine Triple.pure fun w h => ?_
    have hqueries := h.closing.queries
    rw [h.count] at hqueries
    show False
    omega
  | succ fuel ih =>
    refine Triple.bind (turn_holds env n) fun r => ?_
    cases r with
    | some r => exact Triple.pure fun _ h => h
    | none => exact ih (n + 1) (by omega)

theorem startWorld_between (host : Host) (request : AgentSessionRequest) (s : SessionState) :
    Between b request.limits (startWorld env host request s).run.deadline 0 0 (startWorld env host request s).ink := by
  refine ⟨⟨rfl, rfl, (add_zero _).symm⟩, rfl, rfl, rfl, Nat.zero_le _, Nat.zero_le _, Nat.zero_le _,
    fun _ => trivial, fun _ m hm => ?_, rfl⟩
  exact request.limits.tokens_pos m hm

theorem runOf_holds (host : Host) (request : AgentSessionRequest) (s : SessionState) (fuel : ℕ)
    (hfuel : request.limits.maxTurns + maxToolCallRecoveries < fuel) :
    Triple (fun w => w = startWorld env host request s)
      (runSession b env request.limits (openedEvent request) fuel)
      (Outcome b request.limits (startWorld env host request s).run.deadline fun _ => False)
      fun w => Ended b request.limits (startWorld env host request s).run.deadline w.ink := by
  have hrun : Triple (fun w => Between b request.limits (startWorld env host request s).run.deadline 0 0 w.ink)
      (runSession b env request.limits (openedEvent request) fuel)
      (Outcome b request.limits (startWorld env host request s).run.deadline fun _ => False)
      fun w => Ended b request.limits (startWorld env host request s).run.deadline w.ink := by
    have hrecord := (recordEvent_quiet env (openedEvent request) none none []).triple
      (Between b request.limits (startWorld env host request s).run.deadline 0 0)
    refine Triple.bind (hrecord.conseq (fun _ h => h) (fun _ _ h => h) fun _ h => h.closing.toEnded) fun _ => ?_
    exact orSinkError_holds env (fun _ h => h.closing) b.model (fun _ h => h.toEnded)
      (rounds_hold env 0 fuel (by omega))
  refine hrun.weaken fun w hw => ?_
  rw [hw]
  exact startWorld_between env host request s

end

/-- Whatever the model and the tools do, a run ends, and the numbers of its queries and of its tool
calls are bounded. -/
theorem runOf_bounded (host : Host) (request : AgentSessionRequest) (s : SessionState) (fuel : ℕ)
    (hfuel : request.limits.maxTurns + maxToolCallRecoveries < fuel) :
    (host.runOf b env request s fuel).1 ≠ .ok none ∧
      queriesIn (host.runOf b env request s fuel).2.log ≤ request.limits.maxTurns + maxToolCallRecoveries ∧
      invocationsIn (host.runOf b env request s fuel).2.log ≤ request.limits.maxToolCalls := by
  have h := runOf_holds (b := b) env host request s fuel hfuel (startWorld env host request s) rfl
  unfold Host.runOf
  cases hrun : runSession b env request.limits (openedEvent request) fuel (startWorld env host request s) with
  | mk r w =>
    rw [hrun] at h
    cases r with
    | ok o =>
      cases o with
      | some result => exact ⟨nofun, h.1.queries, h.1.calls⟩
      | none => exact h.elim
    | error e => exact ⟨nofun, h.queries, h.calls⟩

theorem runOf_reported (host : Host) (request : AgentSessionRequest) (s : SessionState) (fuel : ℕ)
    (hfuel : request.limits.maxTurns + maxToolCallRecoveries < fuel) {r : AgentSessionResult}
    (hr : (host.runOf b env request s fuel).1 = .ok (some r)) :
    Reported request.limits r (host.runOf b env request s fuel).2.log := by
  have h := runOf_holds (b := b) env host request s fuel hfuel (startWorld env host request s) rfl
  unfold Host.runOf at hr ⊢
  cases hrun : runSession b env request.limits (openedEvent request) fuel (startWorld env host request s) with
  | mk o w =>
    rw [hrun] at h hr
    cases hr
    exact h.2.2

theorem runOf_responses (host : Host) (request : AgentSessionRequest) (s : SessionState) (fuel : ℕ)
    (hfuel : request.limits.maxTurns + maxToolCallRecoveries < fuel) :
    responsesIn (host.runOf b env request s fuel).2.log ≤ request.limits.maxTurns := by
  have h := runOf_holds (b := b) env host request s fuel hfuel (startWorld env host request s) rfl
  unfold Host.runOf
  cases hrun : runSession b env request.limits (openedEvent request) fuel (startWorld env host request s) with
  | mk r w =>
    rw [hrun] at h
    cases r with
    | ok o =>
      cases o with
      | some result => exact h.1.responses
      | none => exact h.elim
    | error e => exact h.responses

/-- A run whose steps are orderly keeps all its limits, whatever the model and the tools do. -/
theorem keepsLimits_of_steady (host : Host) (request : AgentSessionRequest) (s : SessionState) (fuel : ℕ)
    (hfuel : request.limits.maxTurns + maxToolCallRecoveries < fuel)
    (hsteady : Steady b.maxParallelTools request.limits (startWorld env host request s).run.deadline
      (host.runOf b env request s fuel).2.log) :
    KeepsLimits b request.limits (startWorld env host request s).run.deadline (host.runOf b env request s fuel) := by
  have h := runOf_holds (b := b) env host request s fuel hfuel (startWorld env host request s) rfl
  unfold Host.runOf at hsteady ⊢
  cases hrun : runSession b env request.limits (openedEvent request) fuel (startWorld env host request s) with
  | mk r w =>
    rw [hrun] at h hsteady
    cases r with
    | ok o =>
      cases o with
      | some result =>
        refine ⟨nofun, h.1.queries, h.1.calls, h.1.admitted hsteady, fun r hr => ?_⟩
        have heq : result = r := Option.some.inj (Except.ok.inj hr)
        rw [← heq]
        exact h.2.1 hsteady
      | none => exact h.elim
    | error e => exact ⟨nofun, h.queries, h.calls, h.admitted hsteady, nofun⟩

def bash : LLMToolCall := ⟨"c1".toList, "bash".toList, []⟩

def bashAgain : LLMToolCall := ⟨"c2".toList, "bash".toList, []⟩

def oneTool : NativeToolAgentBackend where
  model := "m".toList
  tools := [⟨"bash".toList, true⟩]
  maxInputTokens := 1000
  model_nonblank := by decide
  names_nodup := by decide
  one_le_input := by decide
  one_le_parallel := by decide
  ratio_pos := by decide +kernel
  ratio_le := by decide +kernel

def calling (calls : List LLMToolCall) (hne : calls ≠ []) (hid : (calls.map (·.callId)).Nodup) : LLMResponse where
  text := []
  model := "m".toList
  promptTokens := 10
  toolCalls := calls
  stopReason := .toolCalls
  cached_le := by decide
  ids_nodup := hid
  calls_iff := ⟨fun _ => hne, fun _ => rfl⟩

def callsBash : LLMResponse := calling [bash] (List.cons_ne_nil _ _) (by decide)

def callsBashTwice : LLMResponse := calling [bash, bashAgain] (List.cons_ne_nil _ _) (by decide)

def done : LLMResponse where
  text := "done".toList
  model := "m".toList
  cached_le := by decide
  ids_nodup := by decide
  calls_iff := by decide

def asked (maxTurns : ℕ) (timeoutS : ℚ≥0) (maxTokens : ℕ) (hturns : 1 ≤ maxTurns) (htimeout : 0 < timeoutS)
    (htokens : 1 ≤ maxTokens) : AgentSessionRequest where
  system := "you edit".toList
  user := "edit".toList
  parentId := "p".toList
  operator := "edit".toList
  workdir := "/w".toList
  limits := { maxTurns := maxTurns, timeoutS := timeoutS, maxTokens := some maxTokens, one_le_turns := hturns
              timeout_pos := htimeout, tokens_pos := fun _ h => Option.some.inj h ▸ htokens }

def newSession (request : AgentSessionRequest) : SessionState :=
  { sessionId := "s".toList, messages := [.system request.system, .user request.user], workdir := request.workdir,
    parentId := request.parentId, operator := request.operator, model := oneTool.model,
    toolNames := oneTool.tools.map (·.name) }

def enough : AgentSessionRequest := asked 2 300 50 (by decide) (by decide) (by decide)

def callsThenDone (i : ℕ) : Reply := { answer := .response (if i = 18 then done else callsBash) }

theorem keepsLimits_of_steady_tool :
    KeepsLimits oneTool enough.limits (startWorld callsThenDone {} enough (newSession enough)).run.deadline
      (Host.runOf oneTool callsThenDone {} enough (newSession enough) 6) :=
  keepsLimits_of_steady oneTool callsThenDone {} enough (newSession enough) 6 (by decide) (by decide +kernel)

def opensThenCalls (i : ℕ) : Reply := { callsThenDone (i - 2) with freshId := "s".toList }

theorem sessions_wellKept_tool :
    ∃ s ∈ ([Operation.run enough 6].foldl (Host.operate oneTool opensThenCalls) {}).sessions, WellKept s := by
  have hne : ([Operation.run enough 6].foldl (Host.operate oneTool opensThenCalls) {}).sessions.length ≠ 0 := by
    decide
  have hmem := List.head_mem (List.length_pos_iff.mp (Nat.pos_of_ne_zero hne))
  exact ⟨_, hmem, sessions_wellKept oneTool opensThenCalls [.run enough 6] _ hmem⟩

def fewTokens : AgentSessionRequest := asked 1 300 5 (by decide) (by decide) (by decide)

def callsOnce (_ : ℕ) : Reply := { freshId := "s".toList, answer := .response callsBash }

/-- The deadline is seen while the second safe call is looked at, and the first is then started. -/
def littleTime : AgentSessionRequest := asked 1 6 50 (by decide) (by decide) (by decide)

def tickingCalls (_ : ℕ) : Reply :=
  { elapsed := 1, freshId := "s".toList, answer := .response callsBashTwice, safe := true }

/-- The workdir is gone when the second call is prepared, after the first has run. -/
def oneTurn : AgentSessionRequest := asked 1 300 50 (by decide) (by decide) (by decide)

def workdirGone (i : ℕ) : Reply :=
  { freshId := "s".toList, answer := .response callsBashTwice
    contextError := if i = 16 then
      some "ValueError: agent tool workdir must be an existing directory".toList else none }

def countOf (ended : Except Fault (Option AgentSessionResult) × World) : Option ℕ :=
  match ended.1 with
  | .ok (some r) => some r.toolCalls
  | _ => none

theorem KeepsLimits.countOf {b : NativeToolAgentBackend} {limits : AgentSessionLimits} {deadline : ℚ≥0}
    {ended : Except Fault (Option AgentSessionResult) × World} (h : KeepsLimits b limits deadline ended) {n : ℕ}
    (hn : countOf ended = some n) : n = invocationsIn ended.2.log := by
  obtain ⟨r, w⟩ := ended
  cases r with
  | error e => exact nomatch hn
  | ok o =>
    cases o with
    | none => exact nomatch hn
    | some result =>
      have heq : result.toolCalls = n := Option.some.inj hn
      rw [← heq]
      exact (h.counted result rfl).2

theorem limits_outrun :
    ¬KeepsLimits oneTool fewTokens.limits (startWorld callsOnce {} fewTokens (newSession fewTokens)).run.deadline
      (Host.runOf oneTool callsOnce {} fewTokens (newSession fewTokens) 5) ∧
    ¬KeepsLimits oneTool littleTime.limits (startWorld tickingCalls {} littleTime (newSession littleTime)).run.deadline
      (Host.runOf oneTool tickingCalls {} littleTime (newSession littleTime) 5) ∧
    ¬KeepsLimits oneTool oneTurn.limits (startWorld workdirGone {} oneTurn (newSession oneTurn)).run.deadline
      (Host.runOf oneTool workdirGone {} oneTurn (newSession oneTurn) 5) := by
  refine ⟨fun h => ?_, fun h => ?_, fun h => ?_⟩
  · exact absurd h.admitted (by decide +kernel)
  · exact absurd h.admitted (by decide +kernel)
  · have hcount := h.countOf (n := 0) (by decide +kernel)
    exact absurd hcount (by decide +kernel)

end EvoHarness.Core.Agent
