import EvoHarness.Core.RepairRounds

/-! The runs of the backend in a session proposal: how they share its limits over the repair rounds. -/
namespace EvoHarness.Core.AgentSessionProposer
open PyText Hoare Agent

/-- A run of the backend: the clock before it, since the proposal began, the accounts its limits were
made from, and the host and the request it starts with. -/
structure BackendRun where
  elapsed : ℚ≥0
  spent : ProposalUsage
  host : Host
  request : AgentSessionRequest

namespace BackendRun

def limits (run : BackendRun) : AgentSessionLimits := run.request.limits

section
variable (p : AgentSessionProposer) (out : SessionOutside) (run : BackendRun)

def ended : Except Fault (Option AgentSessionResult) × Host :=
  run.host.run p.backend.runtime out.replies run.request (fuel run.limits)

def log : List Happening :=
  match openSession p.backend.runtime run.host.sessions run.request (out.replies run.host.asked).isDir
      (out.replies (run.host.asked + 1)).freshId with
  | .error _ => []
  | .ok s => (run.host.runOf p.backend.runtime out.replies run.request s (fuel run.limits)).2.log

def turns : ℕ := responsesIn (run.log p out)

def toolCalls : ℕ := invocationsIn (run.log p out)

def result? : Option AgentSessionResult :=
  match (run.ended p out).1 with
  | .ok result => result
  | .error _ => none

def reported (count : AgentSessionResult → ℕ) : ℕ := ((run.result? p out).map count).getD 0

def costUsd : ℚ≥0 := ((run.result? p out).map (·.costUsd)).getD 0

def tokens : ℕ := run.reported p out fun r => r.promptTokens + r.completionTokens

def startedAt : ℚ≥0 := run.host.now + (out.replies run.host.asked).elapsed

def deadline : ℚ≥0 := run.startedAt out + run.limits.timeoutS

end
end BackendRun

section
variable (p : AgentSessionProposer) (rd : Reading) (out : SessionOutside)

def roundRuns (operator system user parentId : Text) (round : ℕ) (feedback : List PreflightIssue)
    (w : SessionWorld) : List BackendRun :=
  match w.usage.remainingLimits p.limits (out.rounds round).elapsed with
  | .error _ => []
  | .ok limits =>
    [{ elapsed := (out.rounds round).elapsed
       spent := w.usage
       host := { w.host with sessions := w.host.sessions ++ (out.rounds round).others }
       request := {
         system := system, user := user, parentId := parentId, operator := operator, workdir := out.workdir
         limits := limits, hasSink := true, sessionId := w.sessionId, feedback := feedback } }]

def loopRuns (operator system user parentId : Text) : ℕ → ℕ → List PreflightIssue → SessionWorld → List BackendRun
  | 0, _, _, _ => []
  | left + 1, round, feedback, w =>
    p.roundRuns out operator system user parentId round feedback w ++
      match p.repairRound rd out operator system user parentId round feedback w with
      | (.ok (.inr issues), w') => loopRuns operator system user parentId left (round + 1) issues w'
      | _ => []

def runs (operator system user parentId : Text) : List BackendRun :=
  if isBlank operator = true ∨ isBlank system = true ∨ isBlank user = true ∨ out.idFails = true ∨ out.openError ≠ none
  then []
  else p.loopRuns rd out operator (system ++ p.budgetNote) user parentId (p.maxRepairRounds + 1) 0 [] { host := out.host }

end

variable {p : AgentSessionProposer} {rd : Reading} {out : SessionOutside}

def BackendRun.queries (p : AgentSessionProposer) (out : SessionOutside) (run : BackendRun) : List Query :=
  (run.host.queries p.backend.runtime out.replies run.request (fuel run.limits)).map (⟨run.limits, ·⟩)

theorem roundQueries_eq (operator system user parentId : Text) (round : ℕ) (feedback : List PreflightIssue)
    (w : SessionWorld) : p.roundQueries out operator system user parentId round feedback w =
      (p.roundRuns out operator system user parentId round feedback w).flatMap (BackendRun.queries p out) := by
  unfold roundQueries roundRuns
  cases w.usage.remainingLimits p.limits (out.rounds round).elapsed with
  | error e => rfl
  | ok limits => exact (List.append_nil _).symm

theorem loopQueries_eq (operator system user parentId : Text) (left round : ℕ) (feedback : List PreflightIssue)
    (w : SessionWorld) : p.loopQueries rd out operator system user parentId left round feedback w =
      (p.loopRuns rd out operator system user parentId left round feedback w).flatMap (BackendRun.queries p out) := by
  induction left generalizing round feedback w with
  | zero => rfl
  | succ left ih =>
    rw [loopQueries, loopRuns, List.flatMap_append, roundQueries_eq]
    congr 1
    cases p.repairRound rd out operator system user parentId round feedback w with
    | mk r w' =>
      cases r with
      | error e => rfl
      | ok judged =>
        cases judged with
        | inl outcome => rfl
        | inr issues => exact ih (round + 1) issues w'

theorem queries_eq (operator system user parentId : Text) : p.queries rd out operator system user parentId =
    (p.runs rd out operator system user parentId).flatMap (BackendRun.queries p out) := by
  unfold queries runs
  split
  · rfl
  · exact loopQueries_eq _ _ _ _ _ _ _ _

theorem propose_heard_runs (operator system user parentId : Text) :
    (p.propose rd out operator system user parentId).heard =
      ((p.runs rd out operator system user parentId).flatMap (BackendRun.queries p out)).map (Query.call out) := by
  rw [propose_heard, queries_eq]

theorem BackendRun.ended_of_open {run : BackendRun} {s : SessionState}
    (h : openSession p.backend.runtime run.host.sessions run.request (out.replies run.host.asked).isDir
      (out.replies (run.host.asked + 1)).freshId = .ok s) :
    (run.ended p out).1 = (run.host.runOf p.backend.runtime out.replies run.request s (fuel run.limits)).1 ∧
      run.log p out = (run.host.runOf p.backend.runtime out.replies run.request s (fuel run.limits)).2.log := by
  unfold ended log Host.run
  rw [h]
  exact ⟨rfl, rfl⟩

theorem BackendRun.reported_of_ok {run : BackendRun} {result : Option AgentSessionResult}
    (h : (run.ended p out).1 = .ok result) : ∃ r, result = some r ∧ Reported run.limits r (run.log p out) := by
  cases hopen : openSession p.backend.runtime run.host.sessions run.request (out.replies run.host.asked).isDir
      (out.replies (run.host.asked + 1)).freshId with
  | error e =>
    unfold ended Host.run at h
    rw [hopen] at h
    exact nomatch h
  | ok s =>
    obtain ⟨hended, hlog⟩ := ended_of_open hopen
    rw [hended] at h
    rw [hlog]
    cases result with
    | none =>
      exact absurd h (runOf_bounded p.backend.runtime out.replies run.host run.request s _ (Nat.lt_succ_self _)).1
    | some r =>
      exact ⟨r, rfl, runOf_reported p.backend.runtime out.replies run.host run.request s _ (Nat.lt_succ_self _) h⟩

theorem BackendRun.turns_le (run : BackendRun) : run.turns p out ≤ run.limits.maxTurns := by
  unfold turns log
  split
  · exact Nat.zero_le _
  · exact runOf_responses p.backend.runtime out.replies run.host run.request _ _ (Nat.lt_succ_self _)

theorem BackendRun.toolCalls_le (run : BackendRun) : run.toolCalls p out ≤ run.limits.maxToolCalls := by
  unfold toolCalls log
  split
  · exact Nat.zero_le _
  · exact (runOf_bounded p.backend.runtime out.replies run.host run.request _ _ (Nat.lt_succ_self _)).2.2

theorem BackendRun.reported_le {run : BackendRun} {count : AgentSessionResult → ℕ} {bound : ℕ}
    (h : ∀ r, Reported run.limits r (run.log p out) → count r ≤ bound) : run.reported p out count ≤ bound := by
  unfold reported result?
  cases hended : (run.ended p out).1 with
  | error e => exact Nat.zero_le _
  | ok result =>
    obtain ⟨r, rfl, hreported⟩ := reported_of_ok hended
    exact h r hreported

theorem BackendRun.absorbed {run : BackendRun} {result : Option AgentSessionResult}
    (h : (run.ended p out).1 = .ok result) (w : SessionWorld) :
    ∃ r, result = some r ∧ absorbRun run.limits result w = (.ok r, { w with usage := w.usage.add r }) := by
  obtain ⟨r, rfl, hreported⟩ := reported_of_ok h
  have hwithin : ¬ (run.limits.maxTurns < r.turns ∨ run.limits.maxToolCalls < r.toolCalls) := by
    have hturns := hreported.turns_le
    have hcalls := hreported.toolCalls_le
    omega
  refine ⟨r, rfl, ?_⟩
  unfold absorbRun
  dsimp only
  rw [Prog.bind_ok (Prog.modify_run _), if_neg hwithin]
  rfl

/-- These limits and what was spent make up the limits of the proposal, and what has no part in them is
below its limit. -/
structure Leaves (u : ProposalUsage) (total limits : AgentSessionLimits) (elapsed : ℚ≥0) : Prop where
  turns : u.turns + limits.maxTurns = total.maxTurns
  toolCalls : u.toolCalls + limits.maxToolCalls = total.maxToolCalls
  timeout : elapsed + limits.timeoutS = total.timeoutS
  cost : ∀ m, total.maxCostUsd = some m → u.costUsd < m
  tokens : ∀ m, total.maxTokens = some m → u.promptTokens + u.completionTokens < m

theorem costLeft_ok {total left : Option ℚ≥0} {spent : ℚ≥0} (h : costLeft total spent = .ok left) :
    ∀ m, total = some m → spent < m := by
  rintro m rfl
  rw [costLeft] at h
  split at h
  · exact nomatch h
  · next hm => exact not_le.mp hm

theorem tokensLeft_ok {total : Option ℕ} {spent : ℕ} {left : {m : Option ℕ // ∀ k, m = some k → 1 ≤ k}}
    (h : tokensLeft total spent = .ok left) : ∀ m, total = some m → spent < m := by
  rintro m rfl
  rw [tokensLeft] at h
  split at h
  · exact nomatch h
  · next hm => exact not_le.mp hm

theorem remainingLimits_ok {u : ProposalUsage} {total limits : AgentSessionLimits} {elapsed : ℚ≥0}
    (h : u.remainingLimits total elapsed = .ok limits) : Leaves u total limits elapsed := by
  unfold ProposalUsage.remainingLimits at h
  split_ifs at h with htime hturns hcalls
  obtain ⟨cost, hcost, h⟩ := ok_of_bind h
  obtain ⟨tokens, htokens, h⟩ := ok_of_bind h
  cases h
  refine ⟨?_, ?_, ?_, costLeft_ok hcost, tokensLeft_ok htokens⟩
  · change u.turns + (total.maxTurns - u.turns) = total.maxTurns
    omega
  · change u.toolCalls + (total.maxToolCalls - u.toolCalls) = total.maxToolCalls
    omega
  · exact add_tsub_cancel_of_le (le_of_lt (not_le.mp htime))

theorem outcome_holds {P : SessionWorld → Prop} {Q : SessionWorld → Prop} (m : Prog SessionWorld SessionFault ProposeResult) :
    Triple P (Sum.inl <$> m : Prog SessionWorld SessionFault (ProposeResult ⊕ List PreflightIssue))
      (fun judged w => ∀ issues, judged = .inr issues → Q w) fun _ => True := by
  intro w _
  rw [map_eq_pure_bind]
  cases hm : m w with
  | mk r w' =>
    cases r with
    | error e =>
      rw [Prog.bind_error hm]
      trivial
    | ok outcome =>
      rw [Prog.bind_ok hm]
      exact fun _ h => nomatch h

theorem judgeRound_completed (round : ℕ) (result : AgentSessionResult) (child : Option Workspace)
    (issues : List PreflightIssue) (u : ProposalUsage) :
    Triple (fun w => w.usage = u) (p.judgeRound rd out round result child issues)
      (fun judged w => ∀ issues, judged = .inr issues → result.termination = .completed ∧ w.usage = u)
      fun _ => True := by
  refine Triple.bind (Q := fun _ w => w.usage = u) (Triple.get fun _ h => h) fun w => ?_
  cases child with
  | some child => exact outcome_holds _
  | none =>
    show Triple _ (if _ then _ else if _ then _ else if _ then _ else if _ then _ else _) _ _
    split
    · exact outcome_holds _
    · split
      · exact outcome_holds _
      · next hdone =>
        split
        · exact outcome_holds _
        · split
          · exact outcome_holds _
          · exact Triple.pure fun _ h _ _ => ⟨not_not.mp hdone, h⟩

theorem checkRound_completed (round : ℕ) (r : RoundReply) (result : AgentSessionResult) (u : ProposalUsage) :
    Triple (fun w => w.usage = u) (p.checkRound rd out round r result)
      (fun judged w => ∀ issues, judged = .inr issues → result.termination = .completed ∧ w.usage = u)
      fun _ => True := by
  unfold checkRound
  split
  · exact outcome_holds _
  · refine Triple.bind (Q := fun _ w => w.usage = u) ?_ fun checked => Triple.bind (Q := fun _ w => w.usage = u) ?_
      fun _ => judgeRound_completed round result _ _ u
    · cases r.preflight with
      | raised described => exact Triple.raise fun _ _ => trivial
      | checked child issues => exact Triple.pure fun _ h => h
    · unfold recordPreflight
      split
      · exact Triple.raise fun _ _ => trivial
      · exact Triple.pure fun _ h => h

theorem bindSession_holds (sessionId : Text) (u : ProposalUsage) :
    Triple (fun w => w.usage = u) (bindSession sessionId) (fun _ w => w.usage = u) fun _ => True := by
  refine Triple.bind (Q := fun _ w => w.usage = u) (Triple.get fun _ h => h) fun w => ?_
  split
  · exact Triple.raise fun _ _ => trivial
  · cases w.sessionId with
    | none => exact Triple.modify fun _ h => h
    | some id =>
      show Triple _ (if _ then _ else _) _ _
      split
      · exact Triple.pure fun _ h => h
      · exact Triple.raise fun _ _ => trivial

theorem absorbRun_holds (limits : AgentSessionLimits) (result : Option AgentSessionResult) (u : ProposalUsage) :
    Triple (fun w => w.usage = u) (absorbRun limits result) (fun r w => result = some r ∧ w.usage = u.add r)
      fun _ => True := by
  cases result with
  | none => exact Triple.raise fun _ _ => trivial
  | some r =>
    refine Triple.bind (Q := fun _ w => w.usage = u.add r) (Triple.modify fun w h => ?_) fun _ => ?_
    · rw [← h]
    · split
      · exact Triple.raise fun _ _ => trivial
      · exact Triple.pure fun _ h => ⟨rfl, h⟩

theorem ofExcept_holds {α : Type} (x : Except SessionFault α) (w : SessionWorld) :
    Triple (fun v => v = w) (ofExcept x) (fun a v => x = .ok a ∧ v = w) fun _ => True := by
  cases x with
  | error e => exact Triple.raise fun _ _ => trivial
  | ok a => exact Triple.pure fun _ h => ⟨rfl, h⟩

theorem backendRun_holds (r : RoundReply) (request : AgentSessionRequest) (w : SessionWorld) :
    Triple (fun v => v = w) (p.backendRun out r request)
      (fun result v => (({ w.host with sessions := w.host.sessions ++ r.others } : Host).run p.backend.runtime out.replies
        request (fuel request.limits)).1 = .ok result ∧ v.usage = w.usage) fun _ => True := by
  have hnative : Triple (fun v => v = w) (p.nativeRun out r.others request)
      (fun result v => (({ w.host with sessions := w.host.sessions ++ r.others } : Host).run p.backend.runtime
        out.replies request (fuel request.limits)).1 = .ok result ∧ v.usage = w.usage) fun _ => True := by
    rintro v rfl
    unfold nativeRun
    dsimp only
    cases (({ v.host with sessions := v.host.sessions ++ r.others } : Host).run p.backend.runtime out.replies request
      (fuel request.limits)).1 with
    | error e => trivial
    | ok result => exact ⟨rfl, rfl⟩
  refine Triple.bind hnative fun result => ?_
  unfold applyCompletion
  split
  · split
    · exact Triple.pure fun _ h => h
    · exact Triple.raise fun _ _ => trivial
  · exact Triple.pure fun _ h => h

variable (p rd out) in
/-- A round that sends its issues back has had a completed run, which is now on the books. -/
theorem repairRound_holds (operator system user parentId : Text) (round : ℕ) (feedback : List PreflightIssue)
    (w : SessionWorld) :
    Triple (fun v => v = w) (p.repairRound rd out operator system user parentId round feedback)
      (fun judged v => ∀ issues, judged = .inr issues →
        ∃ run r, p.roundRuns out operator system user parentId round feedback w = [run] ∧
          (run.ended p out).1 = .ok (some r) ∧ r.termination = .completed ∧ v.usage = w.usage.add r)
      fun _ => True := by
  refine Triple.bind (Q := fun u v => u = w ∧ v = w) (Triple.get fun _ h => ⟨h, h⟩) fun u => Triple.assume fun hu => ?_
  subst hu
  refine Triple.bind (ofExcept_holds _ u) fun limits => Triple.assume fun hlimits => ?_
  refine Triple.bind (backendRun_holds _ _ u) fun result => Triple.assume fun hended => ?_
  refine Triple.bind (absorbRun_holds limits result u.usage) fun r => Triple.assume fun hresult => ?_
  refine Triple.bind (bindSession_holds r.sessionId _) fun _ => ?_
  refine (checkRound_completed round _ r _).strengthen fun judged v h issues hissues => ?_
  obtain ⟨hdone, husage⟩ := h issues hissues
  subst hresult
  refine ⟨⟨(out.rounds round).elapsed, u.usage, _, _⟩, r, ?_, hended, hdone, husage⟩
  unfold roundRuns
  rw [hlimits]

section
variable (f : BackendRun → ℕ) (count : AgentSessionResult → ℕ) (spent : ProposalUsage → ℕ)
  (bound : AgentSessionLimits → ℕ)

/-- What the runs use of a limit, when each stays within its share and a completed one reports what it used. -/
theorem loopRuns_sum (hleft : ∀ {u total limits elapsed}, Leaves u total limits elapsed →
      spent u + bound limits = bound total)
    (hadd : ∀ u r, spent (u.add r) = spent u + count r) (hle : ∀ run : BackendRun, f run ≤ bound run.limits)
    (hdone : ∀ (run : BackendRun) r, (run.ended p out).1 = .ok (some r) → r.termination = .completed → f run = count r)
    (operator system user parentId : Text) (left round : ℕ) (feedback : List PreflightIssue) (w : SessionWorld)
    (hw : spent w.usage ≤ bound p.limits) :
    spent w.usage + ((p.loopRuns rd out operator system user parentId left round feedback w).map f).sum ≤
      bound p.limits := by
  induction left generalizing round feedback w with
  | zero => exact hw
  | succ left ih =>
    have hround : ∀ run ∈ p.roundRuns out operator system user parentId round feedback w,
        spent w.usage + f run ≤ bound p.limits := by
      intro run hrun
      unfold roundRuns at hrun
      split at hrun
      · exact nomatch hrun
      · next limits hlimits =>
        cases List.mem_singleton.mp hrun
        have hshare := hleft (remainingLimits_ok hlimits)
        exact le_trans (Nat.add_le_add_left (hle _) _) (le_of_eq hshare)
    rw [loopRuns, List.map_append, List.sum_append, ← Nat.add_assoc]
    have hnow : spent w.usage + ((p.roundRuns out operator system user parentId round feedback w).map f).sum ≤
        bound p.limits := by
      unfold roundRuns at hround ⊢
      split at hround
      · exact hw
      · simpa using hround
    have hrepair := repairRound_holds p rd out operator system user parentId round feedback w w rfl
    cases hjudged : p.repairRound rd out operator system user parentId round feedback w with
    | mk judged w' =>
      rw [hjudged] at hrepair
      cases judged with
      | error e => exact hnow
      | ok judged =>
        cases judged with
        | inl outcome => exact hnow
        | inr issues =>
          obtain ⟨run, r, hrun, hended, hcompleted, husage⟩ := hrepair issues rfl
          have hspent : spent w'.usage = spent w.usage + f run := by rw [husage, hadd, hdone run r hended hcompleted]
          rw [hrun] at hnow ⊢
          rw [List.map_singleton, List.sum_singleton] at hnow ⊢
          rw [← hspent] at hnow ⊢
          exact ih (round + 1) issues w' hnow

end

theorem mem_roundRuns {operator system user parentId : Text} {round : ℕ} {feedback : List PreflightIssue}
    {w : SessionWorld} {run : BackendRun} (h : run ∈ p.roundRuns out operator system user parentId round feedback w) :
    run.spent = w.usage ∧ Leaves run.spent p.limits run.limits run.elapsed := by
  unfold roundRuns at h
  split at h
  · exact nomatch h
  · next limits hlimits =>
    cases List.mem_singleton.mp h
    exact ⟨rfl, remainingLimits_ok hlimits⟩

variable (p out) in
theorem length_roundRuns (operator system user parentId : Text) (round : ℕ) (feedback : List PreflightIssue)
    (w : SessionWorld) : (p.roundRuns out operator system user parentId round feedback w).length ≤ 1 := by
  unfold roundRuns
  split
  · exact Nat.zero_le _
  · exact le_refl _

theorem length_loopRuns (operator system user parentId : Text) (left round : ℕ) (feedback : List PreflightIssue)
    (w : SessionWorld) : (p.loopRuns rd out operator system user parentId left round feedback w).length ≤ left := by
  induction left generalizing round feedback w with
  | zero => exact le_refl _
  | succ left ih =>
    have hround := length_roundRuns p out operator system user parentId round feedback w
    rw [loopRuns, List.length_append]
    split
    · next issues w' _ =>
      have hrest := ih (round + 1) issues w'
      omega
    · exact le_trans hround (Nat.le_add_left 1 left)

theorem loopRuns_spent {M : Type} [AddCommMonoid M] (f : BackendRun → M) (count : AgentSessionResult → M)
    (spent : ProposalUsage → M) (hadd : ∀ u r, spent (u.add r) = spent u + count r)
    (hdone : ∀ (run : BackendRun) r, (run.ended p out).1 = .ok (some r) → f run = count r)
    {operator system user parentId : Text} {left round : ℕ} {feedback : List PreflightIssue} {w : SessionWorld}
    {done rest : List BackendRun} {run : BackendRun}
    (h : p.loopRuns rd out operator system user parentId left round feedback w = done ++ run :: rest) :
    spent run.spent = spent w.usage + (done.map f).sum ∧ Leaves run.spent p.limits run.limits run.elapsed := by
  induction left generalizing round feedback w done with
  | zero => exact absurd h.symm (by simp [loopRuns])
  | succ left ih =>
    rw [loopRuns] at h
    have hrepair := repairRound_holds p rd out operator system user parentId round feedback w w rfl
    have hnow : ∀ now later, p.roundRuns out operator system user parentId round feedback w = now →
        now ++ later = done ++ run :: rest → later = [] →
        spent run.spent = spent w.usage + (done.map f).sum ∧ Leaves run.spent p.limits run.limits run.elapsed := by
      rintro now later hround heq rfl
      have hlength := length_roundRuns p out operator system user parentId round feedback w
      rw [List.append_nil] at heq
      rw [hround, heq, List.length_append, List.length_cons] at hlength
      have hnone : done = [] := List.eq_nil_of_length_eq_zero (by omega)
      subst hnone
      have hmem : run ∈ p.roundRuns out operator system user parentId round feedback w := by
        rw [hround, heq]
        exact List.mem_cons_self
      obtain ⟨husage, hleaves⟩ := mem_roundRuns hmem
      rw [List.map_nil, List.sum_nil, add_zero, husage]
      exact ⟨rfl, husage ▸ hleaves⟩
    cases hjudged : p.repairRound rd out operator system user parentId round feedback w with
    | mk judged w' =>
      rw [hjudged] at h hrepair
      cases judged with
      | error e => exact hnow _ _ rfl h rfl
      | ok judged =>
        cases judged with
        | inl outcome => exact hnow _ _ rfl h rfl
        | inr issues =>
          obtain ⟨first, r, hfirst, hended, -, husage⟩ := hrepair issues rfl
          rw [hfirst, List.singleton_append] at h
          cases done with
          | nil =>
            have hmem : run ∈ p.roundRuns out operator system user parentId round feedback w := by
              rw [hfirst, (List.cons.inj h).1]
              exact List.mem_cons_self
            obtain ⟨hspent, hleaves⟩ := mem_roundRuns hmem
            rw [List.map_nil, List.sum_nil, add_zero, hspent]
            exact ⟨rfl, hspent ▸ hleaves⟩
          | cons done₀ done =>
            obtain ⟨hhead, htail⟩ := List.cons.inj h
            obtain ⟨hspent, hleaves⟩ := ih htail
            refine ⟨?_, hleaves⟩
            rw [hspent, husage, hadd, List.map_cons, List.sum_cons, ← hhead, hdone first r hended, add_assoc]

structure SharesLimits (p : AgentSessionProposer) (out : SessionOutside) (runs : List BackendRun) : Prop where
  rounds : runs.length ≤ p.maxRepairRounds + 1
  /-- Whatever the backend returns is a result, and taking it onto the books does not raise. -/
  absorbed : ∀ run ∈ runs, ∀ result, (run.ended p out).1 = .ok result →
    ∀ w, ∃ r, (absorbRun run.limits result w).1 = .ok r
  turns : (runs.map (BackendRun.turns p out)).sum ≤ p.limits.maxTurns
  toolCalls : (runs.map (BackendRun.toolCalls p out)).sum ≤ p.limits.maxToolCalls
  reportedTurns : (runs.map fun run => run.reported p out (·.turns)).sum ≤ p.limits.maxTurns
  reportedToolCalls : (runs.map fun run => run.reported p out (·.toolCalls)).sum ≤ p.limits.maxToolCalls
  /-- The limits of a run leave it the time that the clock showed to be left. -/
  timeouts : ∀ run ∈ runs, run.elapsed + run.limits.timeoutS = p.limits.timeoutS
  /-- The deadline of a run is later than that of the proposal by what the same clock, read again by the
  run, has moved on. -/
  deadlines : ∀ run ∈ runs, ∀ begun moved, run.startedAt out = begun + run.elapsed + moved →
    run.deadline out = begun + p.limits.timeoutS + moved
  costs : ∀ done run rest, runs = done ++ run :: rest → ∀ m, p.limits.maxCostUsd = some m →
    (done.map (BackendRun.costUsd p out)).sum < m
  tokens : ∀ done run rest, runs = done ++ run :: rest → ∀ m, p.limits.maxTokens = some m →
    (done.map (BackendRun.tokens p out)).sum < m

theorem BackendRun.reported_of_result {run : BackendRun} {r : AgentSessionResult}
    (h : (run.ended p out).1 = .ok (some r)) : run.result? p out = some r := by
  unfold result?
  rw [h]

theorem BackendRun.counted {run : BackendRun} {r : AgentSessionResult} (h : (run.ended p out).1 = .ok (some r))
    (hdone : r.termination = .completed) : run.turns p out = r.turns ∧ run.toolCalls p out = r.toolCalls := by
  obtain ⟨_, hr, hreported⟩ := reported_of_ok h
  cases hr
  obtain ⟨hturns, hcalls⟩ := hreported.completed hdone
  exact ⟨hturns.symm, hcalls.symm⟩

theorem loopRuns_share (operator system user parentId : Text) (host : Host) :
    SharesLimits p out (p.loopRuns rd out operator system user parentId (p.maxRepairRounds + 1) 0 [] { host := host }) := by
  have hleaves : ∀ run ∈ p.loopRuns rd out operator system user parentId (p.maxRepairRounds + 1) 0 [] { host := host },
      Leaves run.spent p.limits run.limits run.elapsed := by
    intro run hrun
    obtain ⟨done, rest, hsplit⟩ := List.append_of_mem hrun
    exact (loopRuns_spent (fun _ => 0) (fun _ => 0) (fun _ => 0) (fun _ _ => rfl) (fun _ _ _ => rfl) hsplit).2
  refine ⟨length_loopRuns _ _ _ _ _ _ _ _, ?_, ?_, ?_, ?_, ?_, fun run hrun => (hleaves run hrun).timeout, ?_, ?_, ?_⟩
  · intro run _ result h w
    obtain ⟨r, _, habsorb⟩ := BackendRun.absorbed h w
    exact ⟨r, congrArg Prod.fst habsorb⟩
  · simpa using loopRuns_sum _ (·.turns) (·.turns) (·.maxTurns) (fun h => h.turns) (fun _ _ => rfl)
      BackendRun.turns_le (fun _ _ h hdone => (BackendRun.counted h hdone).1) operator system user parentId _ 0 []
      { host := host } (Nat.zero_le _)
  · simpa using loopRuns_sum _ (·.toolCalls) (·.toolCalls) (·.maxToolCalls) (fun h => h.toolCalls) (fun _ _ => rfl)
      BackendRun.toolCalls_le (fun _ _ h hdone => (BackendRun.counted h hdone).2) operator system user parentId _ 0 []
      { host := host } (Nat.zero_le _)
  · simpa using loopRuns_sum (fun run => run.reported p out (·.turns)) (·.turns) (·.turns) (·.maxTurns)
      (fun h => h.turns) (fun _ _ => rfl) (fun _ => BackendRun.reported_le fun _ h => h.turns_le)
      (fun _ _ h _ => by rw [BackendRun.reported, BackendRun.reported_of_result h]; rfl) operator system user parentId _ 0
      [] { host := host } (Nat.zero_le _)
  · simpa using loopRuns_sum (fun run => run.reported p out (·.toolCalls)) (·.toolCalls) (·.toolCalls)
      (·.maxToolCalls) (fun h => h.toolCalls) (fun _ _ => rfl) (fun _ => BackendRun.reported_le fun _ h => h.toolCalls_le)
      (fun _ _ h _ => by rw [BackendRun.reported, BackendRun.reported_of_result h]; rfl) operator system user parentId _ 0
      [] { host := host } (Nat.zero_le _)
  · intro run hrun begun moved hclock
    rw [BackendRun.deadline, hclock, ← (hleaves run hrun).timeout]
    ring
  · intro done run rest hsplit m hm
    obtain ⟨hspent, hleft⟩ := loopRuns_spent (BackendRun.costUsd p out) (·.costUsd) (·.costUsd) (fun _ _ => rfl)
      (fun _ _ h => by rw [BackendRun.costUsd, BackendRun.reported_of_result h]; rfl) hsplit
    rw [zero_add] at hspent
    rw [← hspent]
    exact hleft.cost m hm
  · intro done run rest hsplit m hm
    obtain ⟨hspent, hleft⟩ := loopRuns_spent (BackendRun.tokens p out) (fun r => r.promptTokens + r.completionTokens)
      (fun u => u.promptTokens + u.completionTokens) (fun _ _ => by simp only [ProposalUsage.add]; omega)
      (fun _ _ h => by rw [BackendRun.tokens, BackendRun.reported, BackendRun.reported_of_result h]; rfl) hsplit
    have hsum : run.spent.promptTokens + run.spent.completionTokens = (done.map (BackendRun.tokens p out)).sum := by
      simpa using hspent
    rw [← hsum]
    exact hleft.tokens m hm

/-- The client is asked in the runs of a proposal alone, and these share its limits, over any repair rounds, whatever
the model, the tools and the clock do. -/
theorem runs_share (p : AgentSessionProposer) (rd : Reading) (out : SessionOutside)
    (operator system user parentId : Text) :
    (p.propose rd out operator system user parentId).heard =
      ((p.runs rd out operator system user parentId).flatMap (BackendRun.queries p out)).map (Query.call out) ∧
    SharesLimits p out (p.runs rd out operator system user parentId) := by
  refine ⟨propose_heard_runs operator system user parentId, ?_⟩
  unfold runs
  split
  · have hnone : ∀ done run rest, ([] : List BackendRun) ≠ done ++ run :: rest := by simp
    exact ⟨Nat.zero_le _, nofun, Nat.zero_le _, Nat.zero_le _, Nat.zero_le _, Nat.zero_le _, nofun, nofun,
      fun _ _ _ h => absurd h (hnone _ _ _), fun _ _ _ h => absurd h (hnone _ _ _)⟩
  · exact loopRuns_share _ _ _ _ _

def ticking : SessionOutside := { sentBack with replies := fun _ => { elapsed := 1, freshId := "s".toList, answer := .response done } }

/-- The run reads the clock for itself, so that it may go on after the proposal is over. -/
theorem deadline_after_proposal :
    ∃ run ∈ repairsOnce.runs plainReading ticking ['o'] ['s'] ['u'] ['p'],
      0 + run.elapsed ≤ run.startedAt ticking ∧ ¬ run.deadline ticking ≤ 0 + repairsOnce.limits.timeoutS := by
  obtain ⟨limits, hlimits⟩ : ∃ limits, ({} : ProposalUsage).remainingLimits repairsOnce.limits 0 = .ok limits := by
    rw [ProposalUsage.remainingLimits, dif_neg (not_le.mpr repairsOnce.limits.timeout_pos), dif_neg (by decide),
      if_neg (by decide)]
    exact ⟨_, rfl⟩
  have hround : ∃ run ∈ repairsOnce.roundRuns ticking ['o'] (['s'] ++ repairsOnce.budgetNote) ['u'] ['p'] 0 []
      { host := ticking.host }, run.elapsed = 0 ∧ run.startedAt ticking = 1 := by
    unfold roundRuns
    rw [show ({ host := ticking.host } : SessionWorld).usage = {} from rfl, show (ticking.rounds 0).elapsed = 0 from rfl,
      hlimits]
    exact ⟨_, List.mem_cons_self, rfl, zero_add 1⟩
  obtain ⟨run, hrun, helapsed, hstarted⟩ := hround
  refine ⟨run, ?_, ?_, ?_⟩
  · rw [runs, if_neg (by decide), loopRuns]
    exact List.mem_append_left _ hrun
  · rw [helapsed, hstarted, add_zero]
    exact zero_le_one
  · have hleft := (mem_roundRuns hrun).2.timeout
    rw [helapsed, zero_add] at hleft
    rw [BackendRun.deadline, hstarted, hleft, zero_add, not_le]
    exact lt_add_of_pos_left _ one_pos

end EvoHarness.Core.AgentSessionProposer
