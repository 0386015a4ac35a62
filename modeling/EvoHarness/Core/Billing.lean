import EvoHarness.Core.LoopFrame

/-! An empty account. A lane that says so ends the run under that name, and nothing else happens. -/
namespace EvoHarness.Core
open PyText Hoare Agent

namespace AgentSessionProposer
variable {α β : Type} {p : AgentSessionProposer} {rd : Reading} {out : SessionOutside}

/-- `m` raises the exception of the empty account whenever the client did. -/
def Tells (m : Prog SessionWorld SessionFault α) : Prop :=
  ∀ w, ∃ new, (m w).2.heard = w.heard ++ new ∧ (Billed new → ∃ error, (m w).1 = .error (.billing error))

def Deaf (m : Prog SessionWorld SessionFault α) : Prop := Prog.Moves (fun w w' => w'.heard = w.heard) m

theorem Deaf.tells {m : Prog SessionWorld SessionFault α} (h : Deaf m) : Tells m := by
  intro w
  refine ⟨[], ?_, fun hb => (not_billed_nil hb).elim⟩
  rw [List.append_nil]
  exact h w

theorem Deaf.pure (a : α) : Deaf (Pure.pure a : Prog SessionWorld SessionFault α) := fun _ => rfl

theorem Deaf.get : Deaf (Prog.get : Prog SessionWorld SessionFault SessionWorld) := fun _ => rfl

theorem Deaf.raise (e : SessionFault) : Deaf (Prog.raise e : Prog SessionWorld SessionFault α) := fun _ => rfl

theorem Deaf.bind {m : Prog SessionWorld SessionFault α} {f : α → Prog SessionWorld SessionFault β} (hm : Deaf m)
    (hf : ∀ a, Deaf (f a)) : Deaf (m >>= f) :=
  Prog.Moves.bind (fun _ _ _ h h' => h'.trans h) hm hf

theorem Tells.bind {m : Prog SessionWorld SessionFault α} {f : α → Prog SessionWorld SessionFault β} (hm : Tells m)
    (hf : ∀ a, Tells (f a)) : Tells (m >>= f) := by
  intro w
  obtain ⟨first, hheard, htells⟩ := hm w
  cases hw : m w with
  | mk r w' =>
    rw [hw] at hheard htells
    cases r with
    | error e =>
      rw [Prog.bind_error hw]
      exact ⟨first, hheard, fun h => (htells h).imp fun _ he => congrArg Except.error (Except.error.inj he)⟩
    | ok a =>
      rw [Prog.bind_ok hw]
      obtain ⟨second, hheard', htells'⟩ := hf a w'
      refine ⟨first ++ second, by rw [hheard', hheard, List.append_assoc], fun h => ?_⟩
      cases billed_append.mp h with
      | inl h => exact nomatch (htells h).choose_spec
      | inr h => exact htells' h

theorem Tells.rescue {m : Prog SessionWorld SessionFault ProposeResult} (hm : Tells m) :
    Tells (Prog.rescue m (onFault out)) := by
  intro w
  obtain ⟨new, hheard, htells⟩ := hm w
  unfold Prog.rescue
  cases hw : m w with
  | mk r w' =>
    rw [hw] at hheard htells
    cases r with
    | ok outcome => exact ⟨new, hheard, htells⟩
    | error e =>
      cases e with
      | billing error => exact ⟨new, hheard, fun _ => ⟨error, rfl⟩⟩
      | loop code => exact ⟨new, hheard, fun h => nomatch (htells h).choose_spec⟩
      | resource code => exact ⟨new, hheard, fun h => nomatch (htells h).choose_spec⟩
      | other described => exact ⟨new, hheard, fun h => nomatch (htells h).choose_spec⟩

theorem nativeRun_tells (others : List SessionState) (request : AgentSessionRequest) :
    Tells (p.nativeRun out others request) := by
  intro w
  refine ⟨_, rfl, fun h => ?_⟩
  obtain ⟨error, he⟩ := Host.run_names _ request (fuel request.limits) h
  exact ⟨error, congrArg (Except.mapError toRaise) he⟩

theorem applyCompletion_deaf (r : RoundReply) (result : Option AgentSessionResult) :
    Deaf (p.applyCompletion r result) := by
  unfold applyCompletion
  split
  · split
    · exact .pure _
    · exact .raise _
  · exact .pure _

theorem ofExcept_deaf (x : Except SessionFault α) : Deaf (ofExcept x) := by
  cases x with
  | ok a => exact .pure a
  | error e => exact .raise e

theorem absorbRun_deaf (limits : AgentSessionLimits) (result : Option AgentSessionResult) :
    Deaf (absorbRun limits result) := by
  cases result with
  | none => exact .raise _
  | some r =>
    refine .bind (fun _ => rfl) fun _ => ?_
    split
    · exact .raise _
    · exact .pure r

theorem bindSession_deaf (sessionId : Text) : Deaf (bindSession sessionId) := by
  refine .bind .get fun w => ?_
  split
  · exact .raise _
  · cases w.sessionId with
    | none => exact fun _ => rfl
    | some id =>
      show Deaf (if _ then _ else _)
      split
      · exact .pure _
      · exact .raise _

theorem failure_deaf (reason : Text) : Deaf (failure out reason) := .bind .get fun _ => .pure _

theorem map_deaf {m : Prog SessionWorld SessionFault α} (f : α → β) (hm : Deaf m) : Deaf (f <$> m) := by
  rw [map_eq_pure_bind]
  exact .bind hm fun a => .pure (f a)

theorem judgeRound_deaf (round : ℕ) (result : AgentSessionResult) (child : Option Workspace)
    (issues : List PreflightIssue) : Deaf (p.judgeRound rd out round result child issues) := by
  refine .bind .get fun w => ?_
  cases child with
  | some child => exact map_deaf _ (.bind .get fun _ => .pure _)
  | none =>
    show Deaf (if _ then _ else if _ then _ else if _ then _ else if _ then _ else _)
    repeat' split
    all_goals first | exact map_deaf _ (failure_deaf _) | exact .pure _

theorem checkRound_deaf (round : ℕ) (r : RoundReply) (result : AgentSessionResult) :
    Deaf (p.checkRound rd out round r result) := by
  unfold checkRound
  split
  · exact map_deaf _ (failure_deaf _)
  · refine .bind ?_ fun checked => .bind ?_ fun _ => judgeRound_deaf round result _ _
    · cases r.preflight with
      | raised described => exact .raise _
      | checked child issues => exact .pure _
    · unfold recordPreflight
      split
      · exact .raise _
      · exact .pure _

theorem repairRound_tells (operator system user parentId : Text) (round : ℕ) (feedback : List PreflightIssue) :
    Tells (p.repairRound rd out operator system user parentId round feedback) := by
  refine .bind Deaf.get.tells fun w => .bind (ofExcept_deaf _).tells fun limits => ?_
  refine .bind (.bind (nativeRun_tells _ _) fun result => (applyCompletion_deaf _ result).tells) fun ended => ?_
  refine .bind (absorbRun_deaf limits ended).tells fun result => .bind (bindSession_deaf _).tells fun _ => ?_
  exact (checkRound_deaf round _ result).tells

theorem runLoop_tells (operator system user parentId : Text) (left round : ℕ) (feedback : List PreflightIssue) :
    Tells (p.runLoop rd out operator system user parentId left round feedback) := by
  induction left generalizing round feedback with
  | zero => exact (Deaf.raise _).tells
  | succ left ih =>
    refine .bind (repairRound_tells operator system user parentId round feedback) fun judged => ?_
    cases judged with
    | inl outcome => exact (Deaf.pure outcome).tells
    | inr issues => exact ih (round + 1) issues

theorem raiseIf_deaf (error : Option Text) : Deaf (raiseIf error) := by
  cases error with
  | none => exact .pure _
  | some code => exact .raise _

theorem settleResources_deaf (outcome : ProposeResult) : Deaf (settleResources out outcome) := by
  refine .bind .get fun w => ?_
  split
  · exact failure_deaf _
  · split
    · exact failure_deaf _
    · exact .pure _

theorem finalizeTranscript_deaf (outcome : ProposeResult) : Deaf (finalizeTranscript out outcome) := by
  refine .bind (failure_deaf _) fun failed => ?_
  split
  · exact .raise _
  · split
    · exact .pure _
    · exact .pure _

theorem withResources_tells (operator system user parentId : Text) :
    Tells (p.withResources rd out operator system user parentId) := by
  refine .bind (raiseIf_deaf _).tells fun _ => .bind (runLoop_tells _ _ _ _ _ _ _).rescue fun outcome => ?_
  refine .bind (settleResources_deaf outcome).tells fun settled => ?_
  refine .bind (finalizeTranscript_deaf settled).tells fun final => ?_
  exact .bind (raiseIf_deaf _).tells fun _ => (Deaf.pure final).tells

theorem session_tells (operator system user parentId : Text) :
    Tells (p.session rd out operator system user parentId) := by
  unfold session
  split
  · exact (Deaf.pure _).tells
  · exact (withResources_tells _ _ _ _).rescue

theorem propose_tells (operator system user parentId : Text)
    (h : Billed (p.propose rd out operator system user parentId).heard) :
    ∃ error, (p.propose rd out operator system user parentId).result = .error (.billing error) := by
  unfold propose at h ⊢
  by_cases ho : isBlank operator = true
  · rw [if_pos ho] at h
    exact (not_billed_nil h).elim
  by_cases hs : isBlank system = true
  · rw [if_neg ho, if_pos hs] at h
    exact (not_billed_nil h).elim
  by_cases hu : isBlank user = true
  · rw [if_neg ho, if_neg hs, if_pos hu] at h
    exact (not_billed_nil h).elim
  rw [if_neg ho, if_neg hs, if_neg hu] at h ⊢
  have htold : Tells (p.session rd out operator system user parentId) := session_tells operator system user parentId
  obtain ⟨new, hheard, htells⟩ := htold { host := out.host }
  have hbilled : Billed (p.session rd out operator system user parentId { host := out.host }).2.heard := h
  rw [hheard] at hbilled
  obtain ⟨error, he⟩ := htells hbilled
  exact ⟨error, congrArg (Except.mapError leaves) he⟩

end AgentSessionProposer

def Call.Billed (c : Call) : Prop := Agent.Billed c.proposed.heard

instance (c : Call) : Decidable c.Billed := inferInstanceAs (Decidable (Agent.Billed _))

def Call.RaisesOther (c : Call) : Prop :=
  match c.proposed.result with
  | .ok _ => False
  | .error (.billing _) => False
  | .error _ => True

instance (c : Call) : Decidable c.RaisesOther := by
  unfold Call.RaisesOther
  split <;> infer_instance

/-- No single-shot call found the account empty, and no call that did comes behind one that raises
something else. -/
def Told (calls : List Call) : Prop :=
  (∀ c ∈ calls, c.isSingleShot = true → ¬ c.Billed) ∧
    calls.Pairwise fun earlier later => later.Billed → ¬ earlier.RaisesOther

instance (calls : List Call) : Decidable (Told calls) := by
  unfold Told
  infer_instance

def callsIn (log : List Event) : List (List Call) :=
  log.filterMap fun
    | .called _ calls => some calls
    | _ => none

def Quiet (log : List Event) : Prop := ∀ calls ∈ callsIn log, ∀ c ∈ calls, ¬ c.Billed

def AllTold (log : List Event) : Prop := ∀ calls ∈ callsIn log, Told calls

/-- No call found the account empty; or the calls that did are the last thing the run has done, and it
returned the report as it stood then, stopped under the name of the empty account. The best candidate
is read again. -/
def StopsOnBilling (ended : Except RunFault RunReport × LoopWorld) : Prop :=
  Quiet ended.2.log ∨ ∃ report calls before bestId bestFitness,
    ended.2.log = .called report calls :: before ∧ Quiet before ∧
      ended.1 = .ok { report with
        stoppedReason := "llm_billing".toList, bestId := bestId, bestFitness := bestFitness }

instance (log : List Event) : Decidable (Quiet log) := by
  unfold Quiet
  infer_instance

instance (log : List Event) : Decidable (AllTold log) := by
  unfold AllTold
  infer_instance

def stopOf (ended : Except RunFault RunReport × LoopWorld) : Option Text :=
  match ended.1 with
  | .ok report => some report.stoppedReason
  | .error _ => none

theorem StopsOnBilling.stopOf {ended : Except RunFault RunReport × LoopWorld} (h : StopsOnBilling ended) :
    Quiet ended.2.log ∨ Core.stopOf ended = some "llm_billing".toList := by
  cases h with
  | inl h => exact .inl h
  | inr h =>
    obtain ⟨report, calls, before, bestId, bestFitness, _, _, hr⟩ := h
    unfold Core.stopOf
    rw [hr]
    exact .inr rfl

theorem callsIn_append (xs ys : List Event) : callsIn (xs ++ ys) = callsIn xs ++ callsIn ys :=
  List.filterMap_append

theorem Quiet.append {xs ys : List Event} (hx : Quiet xs) (hy : Quiet ys) : Quiet (xs ++ ys) := by
  intro calls h
  rw [callsIn_append] at h
  cases List.mem_append.mp h with
  | inl h => exact hx calls h
  | inr h => exact hy calls h

theorem AllTold.append_left {xs ys : List Event} (h : AllTold (xs ++ ys)) : AllTold xs := fun calls hc =>
  h calls (by rw [callsIn_append]; exact List.mem_append_left _ hc)

theorem AllTold.append_right {xs ys : List Event} (h : AllTold (xs ++ ys)) : AllTold ys := fun calls hc =>
  h calls (by rw [callsIn_append]; exact List.mem_append_right _ hc)

theorem quiet_of_no_calls {log : List Event} (h : callsIn log = []) : Quiet log := by
  intro calls hc
  rw [h] at hc
  cases hc

theorem mapM_raises_billing {calls : List Call}
    (hlane : ∀ c ∈ calls, c.Billed → ∃ e, c.proposed.result = .error (.billing e))
    (horder : calls.Pairwise fun earlier later => later.Billed → ¬ earlier.RaisesOther)
    (h : ∃ c ∈ calls, c.Billed) : ∃ e, calls.mapM (·.proposed.result) = .error (.billing e) := by
  induction calls with
  | nil =>
    obtain ⟨c, hc, _⟩ := h
    cases hc
  | cons c rest ih =>
    have hpair := List.pairwise_cons.mp horder
    rw [List.mapM_cons]
    by_cases hc : c.Billed
    · obtain ⟨e, he⟩ := hlane c List.mem_cons_self hc
      rw [he]
      exact ⟨e, rfl⟩
    · have hrest : ∃ c ∈ rest, c.Billed := by
        obtain ⟨d, hd, hb⟩ := h
        cases List.mem_cons.mp hd with
        | inl heq => exact (hc (heq ▸ hb)).elim
        | inr hd => exact ⟨d, hd, hb⟩
      have hquiet : ¬ c.RaisesOther := by
        obtain ⟨d, hd, hb⟩ := hrest
        exact hpair.1 d hd hb
      obtain ⟨e, he⟩ := ih (fun c hc => hlane c (List.mem_cons_of_mem _ hc)) hpair.2 hrest
      unfold Call.RaisesOther at hquiet
      cases hr : c.proposed.result with
      | ok result =>
        rw [he]
        exact ⟨e, rfl⟩
      | error error =>
        rw [hr] at hquiet
        cases error with
        | billing error => exact ⟨error, rfl⟩
        | evalInfra error => exact (hquiet trivial).elim
        | other described => exact (hquiet trivial).elim

namespace SearchLoop
variable {s : SearchLoop} {env : ℕ → LoopReply} {α β : Type}

theorem callOf_tells (plan : ProposalPlan) (out : Outside) (hlane : (s.callOf plan out).isSingleShot = false)
    (h : (s.callOf plan out).Billed) : ∃ e, (s.callOf plan out).proposed.result = .error (.billing e) := by
  unfold callOf Call.Billed executePlan at *
  cases hm : plan.merge with
  | some m =>
    simp only [hm] at h
    cases ho : out.mergeError with
    | some d => simp only [ho] at h; exact (not_billed_nil h).elim
    | none => simp only [ho] at h; exact (not_billed_nil h).elim
  | none =>
    simp only [hm] at h hlane ⊢
    cases hp : plan.lane.proposer with
    | singleShot p => simp only [hp] at hlane; cases hlane
    | session p =>
      simp only [hp] at h ⊢
      exact AgentSessionProposer.propose_tells _ _ _ _ h

def Silent (m : Prog LoopWorld RunFault α) : Prop :=
  Prog.Moves (fun w w' => ∃ new, w'.log = new ++ w.log ∧ callsIn new = []) m

theorem silent_refl (w : LoopWorld) : ∃ new, w.log = new ++ w.log ∧ callsIn new = [] := ⟨[], rfl, rfl⟩

theorem silent_trans (u v w : LoopWorld) (huv : ∃ new, v.log = new ++ u.log ∧ callsIn new = [])
    (hvw : ∃ new, w.log = new ++ v.log ∧ callsIn new = []) : ∃ new, w.log = new ++ u.log ∧ callsIn new = [] := by
  obtain ⟨first, hfirst, hnone⟩ := huv
  obtain ⟨second, hsecond, hnone'⟩ := hvw
  refine ⟨second ++ first, by rw [hsecond, hfirst, List.append_assoc], ?_⟩
  rw [callsIn_append, hnone, hnone', List.append_nil]

theorem silent_frame : Frame fun w w' : LoopWorld => ∃ new, w'.log = new ++ w.log ∧ callsIn new = [] where
  refl := silent_refl
  trans := silent_trans
  asked _ := ⟨[], rfl, rfl⟩
  report _ _ _ := ⟨[], rfl, rfl⟩
  began generation _ := ⟨[.began generation], rfl, rfl⟩
  charged usd _ := ⟨[.charged usd], rfl, rfl⟩
  graded usd _ := ⟨[.graded usd], rfl, rfl⟩
  saved generation w := ⟨[.saved w.report generation], rfl, rfl⟩

theorem Silent.pure (a : α) : Silent (Pure.pure a : Prog LoopWorld RunFault α) := Prog.Moves.pure silent_refl a

theorem Silent.raise (e : RunFault) : Silent (Prog.raise e : Prog LoopWorld RunFault α) :=
  Prog.Moves.raise silent_refl e

theorem Silent.get : Silent (Prog.get : Prog LoopWorld RunFault LoopWorld) := Prog.Moves.get silent_refl

theorem Silent.bind {m : Prog LoopWorld RunFault α} {f : α → Prog LoopWorld RunFault β} (hm : Silent m)
    (hf : ∀ a, Silent (f a)) : Silent (m >>= f) := Prog.Moves.bind silent_trans hm hf

/-- A run of `m` ends quietly, or with the round of calls that found the account empty and in the way `E`
says, of its result, the report at that round and the report it leaves. -/
def EndsBy (E : Except RunFault α → RunReport → RunReport → Prop) (m : Prog LoopWorld RunFault α) : Prop :=
  ∀ w, ∃ new, (m w).2.log = new ++ w.log ∧ (AllTold new → Quiet new ∨
    ∃ report calls before, new = .called report calls :: before ∧ Quiet before ∧ E (m w).1 report (m w).2.report)

def Raised : Except RunFault α → RunReport → RunReport → Prop := fun r report report' =>
  (∃ e, r = .error (.billing e)) ∧ report' = report

theorem Silent.endsBy {E : Except RunFault α → RunReport → RunReport → Prop} {m : Prog LoopWorld RunFault α}
    (h : Silent m) : EndsBy E m := by
  intro w
  obtain ⟨new, hlog, hnone⟩ := h w
  exact ⟨new, hlog, fun _ => .inl (quiet_of_no_calls hnone)⟩

/-- After the last round nothing more happens: an exception stays what it is, and what follows a return
leaves the log alone. -/
theorem EndsBy.bind {E : Except RunFault α → RunReport → RunReport → Prop}
    {F : Except RunFault β → RunReport → RunReport → Prop} {m : Prog LoopWorld RunFault α}
    {f : α → Prog LoopWorld RunFault β} (hm : EndsBy E m) (hf : ∀ a, EndsBy F (f a))
    (herror : ∀ e report report', E (.error e) report report' → F (.error e) report report')
    (hok : ∀ a report w, E (.ok a) report w.report → (f a w).2.log = w.log ∧ F (f a w).1 report (f a w).2.report) :
    EndsBy F (m >>= f) := by
  intro w
  obtain ⟨first, hlog, hends⟩ := hm w
  cases hw : m w with
  | mk r w' =>
    rw [hw] at hlog hends
    cases r with
    | error e =>
      rw [Prog.bind_error hw]
      refine ⟨first, hlog, fun htold => ?_⟩
      cases hends htold with
      | inl hquiet => exact .inl hquiet
      | inr hlast =>
        obtain ⟨report, calls, before, hnew, hquiet, hE⟩ := hlast
        exact .inr ⟨report, calls, before, hnew, hquiet, herror e report w'.report hE⟩
    | ok a =>
      rw [Prog.bind_ok hw]
      obtain ⟨second, hlog', hends'⟩ := hf a w'
      refine ⟨second ++ first, by rw [hlog', hlog, List.append_assoc], fun htold => ?_⟩
      cases hends htold.append_right with
      | inl hfirst =>
        cases hends' htold.append_left with
        | inl hsecond => exact .inl (hsecond.append hfirst)
        | inr hlast =>
          obtain ⟨report, calls, before, hnew, hquiet, hF⟩ := hlast
          exact .inr ⟨report, calls, before ++ first, by rw [hnew]; rfl, hquiet.append hfirst, hF⟩
      | inr hlast =>
        obtain ⟨report, calls, before, hnew, hquiet, hE⟩ := hlast
        obtain ⟨hsame, hF⟩ := hok a report w' hE
        have hsecond : second = [] := List.append_left_eq_self.mp (hlog'.symm.trans hsame)
        exact .inr ⟨report, calls, before, by rw [hsecond, hnew]; rfl, hquiet, hF⟩

theorem EndsBy.propose {m : Prog LoopWorld RunFault α} {f : α → Prog LoopWorld RunFault β} (hm : EndsBy Raised m)
    (hf : ∀ a, EndsBy Raised (f a)) : EndsBy Raised (m >>= f) := by
  refine hm.bind hf ?_ ?_
  · exact fun e report report' h => ⟨h.1.imp fun _ he => congrArg Except.error (Except.error.inj he), h.2⟩
  · exact fun a report w h => nomatch h.1.choose_spec

theorem Silent.then {E : Except RunFault β → RunReport → RunReport → Prop} {m : Prog LoopWorld RunFault α}
    {f : α → Prog LoopWorld RunFault β} (hm : Silent m) (hf : ∀ a, EndsBy E (f a)) : EndsBy E (m >>= f) :=
  (hm.endsBy (E := fun _ _ _ => False)).bind hf (fun _ _ _ => False.elim) fun _ _ _ => False.elim

theorem changeReport_silent (f : RunReport → RunReport) : Silent (changeReport f) := fun _ => ⟨[], rfl, rfl⟩

theorem stop_silent (reason : String) : Silent (stop reason) := .bind (changeReport_silent _) fun _ => .pure none

theorem unlessTarget_silent (streaks : ℕ × ℕ) : Silent (unlessTarget env streaks) := by
  refine .bind silent_frame.component fun r => ?_
  split
  · exact stop_silent _
  · exact .pure _

theorem endBatch_silent (generation infraStreak proposeStreak : ℕ) :
    Silent (s.endBatch env generation infraStreak proposeStreak) := by
  refine .bind (silent_frame.complete generation) fun _ => ?_
  split
  · exact stop_silent _
  · split
    · exact stop_silent _
    · exact unlessTarget_silent _

theorem afterPropose_silent (generation infraStreak proposeStreak : ℕ) (cand : Option Candidate) :
    Silent (s.afterPropose env generation infraStreak proposeStreak cand) := by
  cases cand with
  | none =>
    refine .bind (silent_frame.record _) fun _ => .bind (silent_frame.complete generation) fun _ => ?_
    split
    · exact stop_silent _
    · exact .pure _
  | some cand =>
    refine .bind silent_frame.tryGrade fun graded => ?_
    cases graded with
    | error error =>
      refine .bind (silent_frame.record _) fun _ => .bind (silent_frame.complete generation) fun _ => ?_
      split
      · exact stop_silent _
      · exact .pure _
    | ok r =>
      refine .bind silent_frame.housekeeping fun _ => .bind silent_frame.noteBest fun _ => .bind (silent_frame.record _) fun _ => ?_
      exact .bind (silent_frame.complete generation) fun _ => unlessTarget_silent _

theorem start_silent : Silent (s.start env) := by
  refine .bind silent_frame.component fun r => ?_
  cases r.checkpoint with
  | some saved =>
    show Silent (if _ then _ else _)
    split
    · exact .raise _
    · exact .bind (changeReport_silent _) fun _ => .pure _
  | none =>
    show Silent (if _ then _ else if _ then _ else _)
    split
    · refine .bind ?_ fun _ => .pure 1
      refine .bind (changeReport_silent _) fun _ => .bind (silent_frame.seedAll _) fun _ => ?_
      exact .bind silent_frame.component fun _ => silent_frame.saveCheckpoint 0
    · split
      · exact .pure 1
      · exact .raise _

theorem round_endsBy {calls : List Call} {r : Except RunFault α}
    (hr : (∃ c ∈ calls, c.Billed) → Told calls → ∃ e, r = .error (.billing e)) :
    EndsBy Raised (Prog.modify (fun w => { w with log := .called w.report calls :: w.log }) >>= fun _ => ofExcept r) := by
  intro w
  refine ⟨[.called w.report calls], ?_, fun htold => ?_⟩
  · cases r <;> rfl
  · by_cases h : ∃ c ∈ calls, c.Billed
    · have hcalls : Told calls := htold calls List.mem_cons_self
      obtain ⟨e, he⟩ := hr h hcalls
      refine .inr ⟨w.report, calls, [], rfl, quiet_of_no_calls rfl, ?_, ?_⟩
      · exact ⟨e, by rw [he]; rfl⟩
      · rw [he]; rfl
    · refine .inl fun calls' hc c hmem hb => h ⟨c, ?_, hb⟩
      have heq : calls' = calls := List.mem_singleton.mp hc
      rwa [heq] at hmem

theorem told_raises {calls : List Call} (hlane : ∀ c ∈ calls, c.isSingleShot = false → c.Billed →
    ∃ e, c.proposed.result = .error (.billing e)) (h : ∃ c ∈ calls, c.Billed) (htold : Told calls) :
    ∃ e, calls.mapM (·.proposed.result) = .error (.billing e) := by
  apply mapM_raises_billing _ htold.2 h
  intro c hc hb
  apply hlane c hc _ hb
  cases hs : c.isSingleShot with
  | false => rfl
  | true => exact (htold.1 c hc hs hb).elim

theorem callOne_endsBy (plan : ProposalPlan) : EndsBy Raised (s.callOne env plan) := by
  refine Silent.then silent_frame.consult fun r => round_endsBy fun h htold => ?_
  obtain ⟨c, hc, hb⟩ := h
  rw [List.mem_singleton.mp hc] at hb
  apply callOf_tells plan _ _ hb
  cases hs : (s.callOf plan (r.outside 0)).isSingleShot with
  | false => rfl
  | true => exact (htold.1 _ List.mem_cons_self hs hb).elim

theorem callAll_endsBy (plans : List ProposalPlan) : EndsBy Raised (s.callAll env plans) := by
  refine Silent.then silent_frame.consult fun r => round_endsBy fun h htold => told_raises (fun c hc hlane hb => ?_) h htold
  obtain ⟨slot, hslot, hc⟩ := List.mem_mapIdx.mp hc
  rw [← hc] at hlane hb ⊢
  exact callOf_tells _ _ hlane hb

theorem propose_endsBy (generation left : ℕ) : EndsBy Raised (s.propose env generation left) := by
  induction left with
  | zero => exact (Silent.pure none).endsBy
  | succ left ih =>
    refine Silent.then silent_frame.planProposal fun plan => ?_
    cases plan with
    | none => exact (Silent.pure none).endsBy
    | some plan =>
      refine (callOne_endsBy plan).propose fun result => Silent.then (silent_frame.absorbProposal generation plan result) fun absorbed => ?_
      split
      · exact (Silent.pure _).endsBy
      · exact (Silent.pure none).endsBy
      · exact ih

theorem proposeEach_endsBy (generation count : ℕ) : EndsBy Raised (s.proposeEach env generation count) := by
  induction count with
  | zero => exact (Silent.pure _).endsBy
  | succ count ih =>
    exact (propose_endsBy generation _).propose fun cand => ih.propose fun rest => (Silent.pure _).endsBy

theorem absorbOrRetry_endsBy (generation : ℕ) (plan : ProposalPlan) (result : ProposeResult) :
    EndsBy Raised (s.absorbOrRetry env generation plan result) := by
  refine Silent.then (silent_frame.absorbProposal generation plan result) fun absorbed => ?_
  split
  · exact (Silent.pure _).endsBy
  · exact (Silent.pure _).endsBy
  · rw [map_eq_pure_bind]
    exact (propose_endsBy generation _).propose fun cand => (Silent.pure _).endsBy

theorem absorbAll_endsBy (generation : ℕ) (pairs : List (ProposalPlan × ProposeResult)) :
    EndsBy Raised (s.absorbAll env generation pairs) := by
  induction pairs with
  | nil => exact (Silent.pure []).endsBy
  | cons pair rest ih =>
    exact (absorbOrRetry_endsBy generation pair.1 pair.2).propose fun cands => ih.propose fun more =>
      (Silent.pure _).endsBy

theorem proposeMany_endsBy (generation count : ℕ) : EndsBy Raised (s.proposeMany env generation count) := by
  unfold proposeMany
  split
  · exact proposeEach_endsBy generation count
  · refine Silent.then (silent_frame.planAll count) fun plans => ?_
    split
    · exact (Silent.pure []).endsBy
    · exact (callAll_endsBy plans).propose fun results => absorbAll_endsBy generation _

theorem runBatchGeneration_endsBy (generation infraStreak : ℕ) :
    EndsBy Raised (s.runBatchGeneration env generation infraStreak) := by
  refine (proposeMany_endsBy generation _).propose fun cands => Silent.endsBy ?_
  split
  · exact .bind (silent_frame.record _) fun _ => .pure _
  · refine .bind (silent_frame.gradeAll cands) fun outcomes => .bind (silent_frame.absorbOutcomes generation outcomes _) fun streak => ?_
    exact .bind silent_frame.housekeeping fun _ => .bind silent_frame.noteBest fun _ => .pure _

def stoppedOnBilling (report : RunReport) : RunReport := { report with stoppedReason := "llm_billing".toList }

def Stopped (a : α) : Except RunFault α → RunReport → RunReport → Prop := fun r report report' =>
  r = .ok a ∧ report' = stoppedOnBilling report

theorem map_some_endsBy {m : Prog LoopWorld RunFault α} (hm : EndsBy Raised m) : EndsBy Raised (some <$> m) := by
  rw [map_eq_pure_bind]
  exact hm.propose fun a => (Silent.pure (some a)).endsBy

theorem unlessBilling_endsBy {m : Prog LoopWorld RunFault α} (hm : EndsBy Raised m) :
    EndsBy (fun r report report' => r = .ok none ∧ report' = report) (unlessBilling m) := by
  intro w
  obtain ⟨new, hlog, hends⟩ := map_some_endsBy hm w
  unfold unlessBilling Prog.rescue
  cases hw : (some <$> m) w with
  | mk r w' =>
    rw [hw] at hlog hends
    cases r with
    | ok a =>
      refine ⟨new, hlog, fun htold => .inl ?_⟩
      cases hends htold with
      | inl hquiet => exact hquiet
      | inr hlast =>
        obtain ⟨report, calls, before, hnew, hquiet, ⟨e, he⟩, hreport⟩ := hlast
        cases he
    | error e =>
      cases e with
      | billing error =>
        refine ⟨new, hlog, fun htold => ?_⟩
        cases hends htold with
        | inl hquiet => exact .inl hquiet
        | inr hlast =>
          obtain ⟨report, calls, before, hnew, hquiet, hE, hreport⟩ := hlast
          exact .inr ⟨report, calls, before, hnew, hquiet, rfl, hreport⟩
      | evalInfra error =>
        refine ⟨new, hlog, fun htold => .inl ?_⟩
        cases hends htold with
        | inl hquiet => exact hquiet
        | inr hlast =>
          obtain ⟨report, calls, before, hnew, hquiet, ⟨e, he⟩, hreport⟩ := hlast
          cases he
      | other described =>
        refine ⟨new, hlog, fun htold => .inl ?_⟩
        cases hends htold with
        | inl hquiet => exact hquiet
        | inr hlast =>
          obtain ⟨report, calls, before, hnew, hquiet, ⟨e, he⟩, hreport⟩ := hlast
          cases he

theorem stopOnBilling_endsBy {m : Prog LoopWorld RunFault α} {next : α → Prog LoopWorld RunFault (Option (ℕ × ℕ))}
    (hm : EndsBy Raised m) (hnext : ∀ a, Silent (next a)) : EndsBy (Stopped none) (stopOnBilling m next) := by
  refine (unlessBilling_endsBy hm).bind (fun r => Silent.endsBy ?_) (fun e report report' h => nomatch h.1) ?_
  · cases r with
    | none => exact stop_silent _
    | some a => exact hnext a
  · intro a report w h
    cases h.1
    exact ⟨rfl, rfl, congrArg stoppedOnBilling h.2⟩

theorem runGeneration_endsBy (generation infraStreak proposeStreak : ℕ) :
    EndsBy (Stopped none) (s.runGeneration env generation infraStreak proposeStreak) := by
  have hbegan : Silent (happen (.began generation)) := fun _ => ⟨[.began generation], rfl, rfl⟩
  refine hbegan.then fun _ => ?_
  split
  · exact stopOnBilling_endsBy (runBatchGeneration_endsBy generation infraStreak) fun _ => endBatch_silent generation _ _
  · exact stopOnBilling_endsBy (propose_endsBy generation _) (afterPropose_silent generation _ _)

theorem generations_endsBy (left generation infraStreak proposeStreak : ℕ) :
    EndsBy (Stopped ()) (s.generations env left generation infraStreak proposeStreak) := by
  induction left generalizing generation infraStreak proposeStreak with
  | zero => exact (Silent.pure ()).endsBy
  | succ left ih =>
    refine Silent.then silent_frame.component fun r => ?_
    split
    · exact (changeReport_silent _).endsBy
    · refine (runGeneration_endsBy generation infraStreak proposeStreak).bind (fun streaks => ?_) ?_ ?_
      · cases streaks with
        | none => exact (Silent.pure ()).endsBy
        | some streaks => exact ih _ _ _
      · exact fun e report report' h => nomatch h.1
      · intro streaks report w h
        cases h.1
        exact ⟨rfl, rfl, h.2⟩

theorem finish_silent : Silent (finish env) :=
  .bind (changeReport_silent _) fun _ => .bind silent_frame.noteBest fun _ => .bind .get fun _ => .pure _

theorem finish_stopped {report : RunReport} {w : LoopWorld} (h : w.report = stoppedOnBilling report) :
    (finish env w).2.log = w.log ∧ ∃ bestId bestFitness, (finish env w).1 = .ok { report with
      stoppedReason := "llm_billing".toList, bestId := bestId, bestFitness := bestFitness } := by
  have hreason : (stoppedOnBilling report).stoppedReason ≠ "running".toList := by
    show "llm_billing".toList ≠ "running".toList
    decide
  have hkeep : RunReport.completed w.report = stoppedOnBilling report := by
    rw [h]
    exact if_neg hreason
  have hresult : (finish env w).1 = .ok (RunReport.withBest (RunReport.completed w.report) (env w.asked).best) := rfl
  refine ⟨rfl, ?_⟩
  rw [hresult, hkeep]
  cases (env w.asked).best with
  | none => exact ⟨report.bestId, report.bestFitness, rfl⟩
  | some best => exact ⟨some best.1, some best.2, rfl⟩

/-- Whatever the lanes, the selectors, the graders and the rest do: in a run none of whose single-shot calls
finds the account empty, and in which no call that raises something else comes before one that does, an
empty account stops the run under its own name. -/
theorem run_stopsOnBilling (s : SearchLoop) (env : ℕ → LoopReply) (h : AllTold (s.run env {}).2.log) :
    StopsOnBilling (s.run env {}) := by
  have hends : EndsBy (fun r report _ => ∃ bestId bestFitness, r = .ok { report with
      stoppedReason := "llm_billing".toList, bestId := bestId, bestFitness := bestFitness }) (s.run env) := by
    refine start_silent.then fun first => (generations_endsBy _ _ _ _).bind (fun _ => finish_silent.endsBy) ?_ ?_
    · exact fun e report report' h => nomatch h.1
    · exact fun _ report w h => finish_stopped h.2
  obtain ⟨new, hlog, hends⟩ := hends {}
  have hnew : (s.run env {}).2.log = new := hlog.trans (List.append_nil new)
  unfold StopsOnBilling
  rw [hnew] at h ⊢
  cases hends h with
  | inl hquiet => exact .inl hquiet
  | inr hlast =>
    obtain ⟨report, calls, before, hcalls, hquiet, bestId, bestFitness, hr⟩ := hlast
    exact .inr ⟨report, calls, before, bestId, bestFitness, hcalls, hquiet, hr⟩

def noReading : Reading where
  mainText _ := []
  texts _ := []
  withFiles _ _ := none
  parseChangeHeader _ := ([], [])
  parseFileBlocks _ := []
  applyPatch _ _ := none
  applyRewrite _ _ := none

def seedParent : Candidate where
  id := "p".toList
  generation := 0
  parentId := none
  islandIdx := 0
  operator := "seed".toList
  changeTitle := "initial program".toList
  workspace := ⟨"file".toList, []⟩

def emptyAccount (idFails : Bool) : Outside where
  attempts _ := { answer := .billing "HTTP 402".toList }
  session := { replies := fun _ => { freshId := "s".toList, answer := .billing "HTTP 402".toList }
               rounds := fun _ => { preflight := .raised [] }, idFails := idFails }

def planned (proposer : Proposer) : ProposalPlan :=
  ⟨⟨"default".toList, proposer⟩, 0, seedParent, "rewrite".toList, "you edit".toList, "edit".toList, none⟩

/-- Every plan is for one proposer. The first of several sessions at once ends before it calls the model. -/
def always (proposer : Proposer) (_ : ℕ) : LoopReply where
  plan := some (planned proposer)
  outside slot := emptyAccount (decide (slot = 0))
  grades _ := .report ⟨true, 1, 0⟩

def twoAtOnce : SearchLoop where
  cfg := { numGenerations := 3, evalBatchSize := 2, proposalConcurrency := 2 }
  reading := noReading
  seeds := [seedParent.workspace]

def oneByOne : SearchLoop where
  cfg := { numGenerations := 3 }
  reading := noReading
  seeds := [seedParent.workspace]

def sessions : Proposer :=
  .session { backend := .native oneTool, limits := enough.limits }

theorem run_stopsOnBilling_twoAtOnce : StopsOnBilling (twoAtOnce.run (always sessions) {}) :=
  run_stopsOnBilling twoAtOnce (always sessions) (by decide +kernel)

/-- A single-shot lane spends all its attempts, and all generations, on the empty account. -/
theorem billing_swallowed : ¬ ∀ (s : SearchLoop) (env : ℕ → LoopReply), StopsOnBilling (s.run env {}) := by
  intro h
  have hstop := (h oneByOne (always (.singleShot {}))).stopOf
  have hnot : ¬ (Quiet (oneByOne.run (always (.singleShot {})) {}).2.log ∨
    stopOf (oneByOne.run (always (.singleShot {})) {}) = some "llm_billing".toList) := by decide
  exact hnot hstop

end SearchLoop
end EvoHarness.Core
