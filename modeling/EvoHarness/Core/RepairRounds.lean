import EvoHarness.Core.Agent.Queries
import EvoHarness.Core.Billing

/-! The queries of a session proposal over its repair rounds, and the turns its budget notes promise. -/
namespace EvoHarness.Core.AgentSessionProposer
open PyText Hoare Agent

structure Query where
  limits : AgentSessionLimits
  asked : Asked

section
variable (p : AgentSessionProposer) (rd : Reading) (out : SessionOutside)

def roundQueries (operator system user parentId : Text) (round : ℕ) (feedback : List PreflightIssue)
    (w : SessionWorld) : List Query :=
  match w.usage.remainingLimits p.limits (out.rounds round).elapsed with
  | .error _ => []
  | .ok limits =>
    let host := { w.host with sessions := w.host.sessions ++ (out.rounds round).others }
    (host.queries p.backend.runtime out.replies
      { system := system, user := user, parentId := parentId, operator := operator, workdir := out.workdir
        limits := limits, hasSink := true, sessionId := w.sessionId, feedback := feedback }
      (fuel limits)).map (⟨limits, ·⟩)

def loopQueries (operator system user parentId : Text) : ℕ → ℕ → List PreflightIssue → SessionWorld → List Query
  | 0, _, _, _ => []
  | left + 1, round, feedback, w =>
    p.roundQueries out operator system user parentId round feedback w ++
      match p.repairRound rd out operator system user parentId round feedback w with
      | (.ok (.inr issues), w') => loopQueries operator system user parentId left (round + 1) issues w'
      | _ => []

def queries (operator system user parentId : Text) : List Query :=
  if isBlank operator = true ∨ isBlank system = true ∨ isBlank user = true ∨ out.idFails = true ∨ out.openError ≠ none
  then []
  else p.loopQueries rd out operator (system ++ p.budgetNote) user parentId (p.maxRepairRounds + 1) 0 [] { host := out.host }

def Query.call (q : Query) : ClientCall := q.asked.call out.replies

end

variable {p : AgentSessionProposer} {rd : Reading} {out : SessionOutside} {α β : Type}

theorem heard_bind {m : Prog SessionWorld SessionFault α} {f : α → Prog SessionWorld SessionFault β}
    (hf : ∀ a, Deaf (f a)) (w : SessionWorld) : ((m >>= f) w).2.heard = (m w).2.heard := by
  cases hm : m w with
  | mk r w' =>
    cases r with
    | error e => rw [Prog.bind_error hm]
    | ok a =>
      rw [Prog.bind_ok hm]
      exact hf a w'

theorem repairRound_heard (operator system user parentId : Text) (round : ℕ) (feedback : List PreflightIssue)
    (w : SessionWorld) :
    (p.repairRound rd out operator system user parentId round feedback w).2.heard =
      w.heard ++ (p.roundQueries out operator system user parentId round feedback w).map (Query.call out) := by
  unfold repairRound roundQueries
  rw [Prog.bind_ok (Prog.get_run (w := w))]
  dsimp only
  cases hl : w.usage.remainingLimits p.limits (out.rounds round).elapsed with
  | error e => exact (List.append_nil _).symm
  | ok limits =>
    rw [show (ofExcept (Except.ok limits) : Prog SessionWorld SessionFault AgentSessionLimits) = pure limits from rfl,
      Prog.bind_ok (Prog.pure_run limits), heard_bind, backendRun, heard_bind]
    · rw [List.map_map]
      exact congrArg (w.heard ++ ·) (Host.heard_eq _ _ _)
    · exact fun result => applyCompletion_deaf _ result
    · exact fun ended => .bind (absorbRun_deaf limits ended) fun result => .bind (bindSession_deaf _) fun _ =>
        checkRound_deaf round _ result

theorem runLoop_heard (operator system user parentId : Text) (left round : ℕ) (feedback : List PreflightIssue)
    (w : SessionWorld) :
    (p.runLoop rd out operator system user parentId left round feedback w).2.heard =
      w.heard ++ (p.loopQueries rd out operator system user parentId left round feedback w).map (Query.call out) := by
  induction left generalizing round feedback w with
  | zero => exact (List.append_nil _).symm
  | succ left ih =>
    have hround : (p.repairRound rd out operator system user parentId round feedback w).2.heard =
        w.heard ++ (p.roundQueries out operator system user parentId round feedback w).map (Query.call out) :=
      repairRound_heard operator system user parentId round feedback w
    rw [runLoop, loopQueries, List.map_append, ← List.append_assoc, ← hround]
    cases hr : p.repairRound rd out operator system user parentId round feedback w with
    | mk r w' =>
      cases r with
      | error e =>
        rw [Prog.bind_error hr]
        exact (List.append_nil _).symm
      | ok judged =>
        rw [Prog.bind_ok hr]
        cases judged with
        | inl outcome => exact (List.append_nil _).symm
        | inr issues => exact ih (round + 1) issues w'

theorem rescue_heard (m : Prog SessionWorld SessionFault ProposeResult) (w : SessionWorld) :
    ((Prog.rescue m (onFault out)) w).2.heard = (m w).2.heard := by
  unfold Prog.rescue
  cases hm : m w with
  | mk r w' =>
    cases r with
    | ok outcome => rfl
    | error e =>
      cases e with
      | billing error => rfl
      | loop code => exact failure_deaf code w'
      | resource code => exact failure_deaf code w'
      | other described => exact failure_deaf _ w'

theorem withResources_heard (hopen : out.openError = none) (operator system user parentId : Text) (w : SessionWorld) :
    (p.withResources rd out operator system user parentId w).2.heard =
      w.heard ++ (p.loopQueries rd out operator system user parentId (p.maxRepairRounds + 1) 0 [] w).map (Query.call out) := by
  unfold withResources
  rw [hopen, show (raiseIf none : Prog SessionWorld SessionFault Unit) = pure () from rfl,
    Prog.bind_ok (Prog.pure_run ()), heard_bind, captureRun, rescue_heard, runLoop_heard]
  intro outcome
  exact .bind (settleResources_deaf outcome) fun settled => .bind (finalizeTranscript_deaf settled) fun final =>
    .bind (raiseIf_deaf _) fun _ => .pure final

theorem propose_heard (operator system user parentId : Text) :
    (p.propose rd out operator system user parentId).heard =
      (p.queries rd out operator system user parentId).map (Query.call out) := by
  unfold propose
  by_cases ho : isBlank operator = true
  · simp [queries, ho]
  by_cases hs : isBlank system = true
  · simp [queries, ho, hs]
  by_cases hu : isBlank user = true
  · simp [queries, ho, hs, hu]
  rw [if_neg ho, if_neg hs, if_neg hu]
  show (p.session rd out operator system user parentId { host := out.host }).2.heard = _
  by_cases hid : out.idFails = true
  · rw [session, if_pos hid, queries, if_pos (by simp [hid])]
    rfl
  rw [session, if_neg hid, rescue_heard]
  cases hopen : out.openError with
  | some code =>
    rw [queries, if_pos (by simp [hopen]), withResources, hopen]
    rfl
  | none =>
    rw [queries, if_neg (by simp [ho, hs, hu, hid, hopen])]
    exact withResources_heard hopen operator (system ++ p.budgetNote) user parentId { host := out.host }

theorem query_mayAsk {operator system user parentId : Text} {q : Query}
    (hq : q ∈ p.queries rd out operator system user parentId) :
    ∃ n deadline, MayAsk p.backend.runtime q.limits deadline n q.asked.world.ink := by
  have hloop : ∀ left round feedback w system, q ∈ p.loopQueries rd out operator system user parentId left round feedback w →
      ∃ n deadline, MayAsk p.backend.runtime q.limits deadline n q.asked.world.ink := by
    intro left
    induction left with
    | zero => exact fun _ _ _ _ h => nomatch h
    | succ left ih =>
      intro round feedback w system h
      rw [loopQueries] at h
      cases List.mem_append.mp h with
      | inl hnow =>
        unfold roundQueries at hnow
        split at hnow
        · simp at hnow
        · obtain ⟨a, ha, rfl⟩ := List.mem_map.mp hnow
          exact Host.queries_mayAsk _ _ _ a ha
      | inr hlater =>
        split at hlater
        · exact ih _ _ _ _ hlater
        · simp at hlater
  unfold queries at hq
  split at hq
  · simp at hq
  · exact hloop _ _ _ _ _ hq

/-- The client is asked these queries and no others, and the note of one is right if and only if the session has had all
its responses in the run of the query. -/
theorem note_truthful_iff (p : AgentSessionProposer) (rd : Reading) (out : SessionOutside)
    (operator system user parentId : Text) :
    (p.propose rd out operator system user parentId).heard =
      (p.queries rd out operator system user parentId).map (Query.call out) ∧
    ∀ q ∈ p.queries rd out operator system user parentId,
      (Agent.budgetNote q.limits q.asked.world).Truthful q.limits q.asked.world ↔
        responsesIn q.asked.world.log = q.asked.world.session.lifetimeTurns := by
  refine ⟨propose_heard operator system user parentId, fun q hq => ?_⟩
  obtain ⟨n, deadline, h⟩ := query_mayAsk hq
  exact budgetNote_truthful_iff h

def repairsOnce : AgentSessionProposer where
  backend := .native oneTool
  limits := enough.limits
  maxRepairRounds := 1

def plainReading : Reading where
  mainText w := w.code
  texts w := [("main.py".toList, w.code)]
  withFiles _ _ := none
  parseChangeHeader t := (t, t)
  parseFileBlocks _ := []
  applyPatch _ _ := none
  applyRewrite _ _ := none

def sentBack : SessionOutside where
  replies _ := { freshId := "s".toList, answer := .response done }
  rounds _ := { preflight := .checked none [⟨"syntax".toList, "syntax-error".toList, "no".toList, true, none, none, none,
    none, [], []⟩] }

/-- The limit of each query, the turns of the session, and those of them before the run. -/
def counts (q : Query) : ℕ × ℕ × ℕ × ℕ :=
  (q.limits.maxTurns, q.asked.world.session.lifetimeTurns, q.asked.world.run.usageBefore.turns,
    responsesIn q.asked.world.log)

theorem sentBack_counts :
    (repairsOnce.queries plainReading sentBack ['o'] ['s'] ['u'] ['p']).map counts = [(2, 0, 0, 0), (1, 1, 1, 0)] := by
  decide +kernel

theorem note_truthful_first :
    ∃ q ∈ repairsOnce.queries plainReading sentBack ['o'] ['s'] ['u'] ['p'],
      (Agent.budgetNote q.limits q.asked.world).Truthful q.limits q.asked.world := by
  have hmem : (2, 0, 0, 0) ∈ (repairsOnce.queries plainReading sentBack ['o'] ['s'] ['u'] ['p']).map counts := by
    rw [sentBack_counts]
    exact List.mem_cons_self ..
  obtain ⟨q, hq, hcounts⟩ := List.mem_map.mp hmem
  simp only [counts, Prod.mk.injEq] at hcounts
  exact ⟨q, hq, ((note_truthful_iff repairsOnce plainReading sentBack ['o'] ['s'] ['u'] ['p']).2 q hq).mpr
    (hcounts.2.2.2.trans hcounts.2.1.symm)⟩

theorem second_note_untrue :
    ¬ ∀ q ∈ repairsOnce.queries plainReading sentBack ['o'] ['s'] ['u'] ['p'],
      (Agent.budgetNote q.limits q.asked.world).Truthful q.limits q.asked.world := by
  intro h
  have hmem : (1, 1, 1, 0) ∈ (repairsOnce.queries plainReading sentBack ['o'] ['s'] ['u'] ['p']).map counts := by
    rw [sentBack_counts]
    exact List.mem_cons_of_mem _ (List.mem_cons_self ..)
  obtain ⟨q, hq, hcounts⟩ := List.mem_map.mp hmem
  simp only [counts, Prod.mk.injEq] at hcounts
  obtain ⟨hlimit, hturns, hbefore, _⟩ := hcounts
  have hleft := (h q hq).left 0
  simp [UnderTurnLimit, World.answered, Agent.budgetNote, hlimit, hturns, hbefore] at hleft

end EvoHarness.Core.AgentSessionProposer
