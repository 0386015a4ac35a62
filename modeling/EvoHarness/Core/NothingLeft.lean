import EvoHarness.Core.ResourceSteps

/-! A proposal leaves nothing behind but the sessions that it was never told of. -/
namespace EvoHarness.Core.ProposalResources
open PyText Hoare Agent

def RunReply.costUsd (r : RunReply) : ℚ≥0 :=
  match r.answer with
  | .result result => result.costUsd
  | _ => 0

def history (round : ℕ) : List Taken :=
  [⟨.openSink, true⟩, ⟨.makeDirectory, true⟩, ⟨.materialize, true⟩] ++ List.replicate round ⟨.recordPreflight, true⟩

section
variable (p : SessionProposer) (out : ProposalOutside)

/-- The session that the result of the first run names, if it is a result within the limits. -/
def named : Option Text :=
  match ({} : ProposalUsage).remainingLimits p.limits (out.round 0).elapsed, (out.round 0).answer with
  | .ok limits, .result r => if p.overruns limits r = true then none else r.sessionId
  | _, _ => none

/-- A round ends with issues to send back, and there is a session to send them to. -/
structure GoesOn (round : ℕ) (limits : AgentSessionLimits) (r : SessionResult) (issues : List PreflightIssue) : Prop where
  within : p.overruns limits r = false
  session : named p out ≠ none
  same : r.sessionId = none ∨ r.sessionId = named p out
  completed : r.termination = .completed
  recorded : out.succeeds (history round) .recordPreflight = true
  repairable : AgentSessionProposer.repairable issues = true
  left : round < p.maxRepairRounds

instance (round : ℕ) (limits : AgentSessionLimits) (r : SessionResult) (issues : List PreflightIssue) :
    Decidable (GoesOn p out round limits r issues) :=
  decidable_of_iff (p.overruns limits r = false ∧ named p out ≠ none ∧
      (r.sessionId = none ∨ r.sessionId = named p out) ∧ r.termination = .completed ∧
      out.succeeds (history round) .recordPreflight = true ∧ AgentSessionProposer.repairable issues = true ∧
      round < p.maxRepairRounds)
    ⟨fun ⟨within, session, same, completed, recorded, repairable, left⟩ =>
        ⟨within, session, same, completed, recorded, repairable, left⟩,
      fun h => ⟨h.within, h.session, h.same, h.completed, h.recorded, h.repairable, h.left⟩⟩

def next (round : ℕ) (u : ProposalUsage) : Option ProposalUsage :=
  match u.remainingLimits p.limits (out.round round).elapsed, (out.round round).answer, (out.round round).preflight with
  | .ok limits, .result r, .checked none issues => if GoesOn p out round limits r issues then some (r.addTo u) else none
  | _, _, _ => none

def standing : ℕ → Option ProposalUsage
  | 0 => some {}
  | round + 1 => (standing round).bind (next p out round)

def Runs (round : ℕ) : Prop :=
  ∃ u limits, standing p out round = some u ∧ u.remainingLimits p.limits (out.round round).elapsed = .ok limits

def Asked (operator system user : Text) (round : ℕ) : Prop :=
  (isBlank operator = false ∧ isBlank system = false ∧ isBlank user = false) ∧
    out.proposalId.any isProposalId = true ∧ Enters out ∧ Runs p out round

end

section
variable {p : SessionProposer} {rd : Reading} {out : ProposalOutside} {round : ℕ} {u : ProposalUsage}

theorem next_some {u' : ProposalUsage} (h : next p out round u = some u') :
    ∃ limits r issues, u.remainingLimits p.limits (out.round round).elapsed = .ok limits ∧
      (out.round round).answer = .result r ∧ (out.round round).preflight = .checked none issues ∧
      GoesOn p out round limits r issues ∧ u' = r.addTo u := by
  unfold next at h
  split at h
  case h_1 limits r issues hl ha hp =>
    by_cases hg : GoesOn p out round limits r issues
    · rw [if_pos hg] at h
      exact ⟨limits, r, issues, hl, ha, hp, hg, (Option.some.inj h).symm⟩
    · rw [if_neg hg] at h
      cases h
  case h_2 => cases h

theorem runs_before (h : standing p out round = some u) {j : ℕ} (hj : j < round) : Runs p out j := by
  induction round generalizing u with
  | zero => cases hj
  | succ round ih =>
    obtain ⟨v, hv, hnext⟩ := Option.bind_eq_some_iff.mp h
    rcases Nat.lt_succ_iff_lt_or_eq.mp hj with hlt | rfl
    · exact ih hv hlt
    · obtain ⟨limits, _, _, hlimits, _⟩ := next_some hnext
      exact ⟨v, limits, hv, hlimits⟩

theorem standing_stops (h : standing p out round = none) {j : ℕ} (hj : round ≤ j) : standing p out j = none := by
  induction j, hj using Nat.le_induction with
  | base => exact h
  | succ j _ ih =>
    show (standing p out j).bind _ = none
    rw [ih]
    rfl

theorem runs_iff_of_exhausted {e : SessionFault} (h : standing p out round = some u)
    (hlimits : u.remainingLimits p.limits (out.round round).elapsed = .error e) (j : ℕ) : Runs p out j ↔ j < round := by
  have hstop : standing p out (round + 1) = none := by
    show (standing p out round).bind _ = none
    rw [h]
    show next p out round u = none
    unfold next
    rw [hlimits]
  constructor
  · intro hruns
    obtain ⟨v, limits, hv, hleft⟩ := hruns
    by_contra hj
    rcases Nat.lt_or_eq_of_le (Nat.not_lt.mp hj) with hlt | rfl
    · exact absurd (hv.symm.trans (standing_stops hstop hlt)) (by simp)
    · cases h.symm.trans hv
      cases hlimits.symm.trans hleft
  · exact runs_before h

theorem runs_iff_of_last {limits : AgentSessionLimits} (h : standing p out round = some u)
    (hlimits : u.remainingLimits p.limits (out.round round).elapsed = .ok limits)
    (hnext : next p out round u = none) (j : ℕ) : Runs p out j ↔ j < round + 1 := by
  have hstop : standing p out (round + 1) = none := by
    show (standing p out round).bind _ = none
    rw [h]
    exact hnext
  constructor
  · intro hruns
    obtain ⟨v, _, hv, _⟩ := hruns
    by_contra hj
    exact absurd (hv.symm.trans (standing_stops hstop (Nat.not_lt.mp hj))) (by simp)
  · intro hj
    rcases Nat.lt_succ_iff_lt_or_eq.mp hj with hlt | rfl
    · exact runs_before h hlt
    · exact ⟨u, limits, h, hlimits⟩

def costOf (out : ProposalOutside) (runs : ℕ) : ℚ≥0 := ((List.range runs).map fun k => (out.round k).costUsd).sum

theorem costOf_succ (runs : ℕ) : costOf out (runs + 1) = costOf out runs + (out.round runs).costUsd := by
  simp [costOf, List.range_succ]

theorem standing_cost (h : standing p out round = some u) : u.costUsd = costOf out round := by
  induction round generalizing u with
  | zero =>
    cases h
    rfl
  | succ round ih =>
    obtain ⟨v, hv, hnext⟩ := Option.bind_eq_some_iff.mp h
    obtain ⟨limits, r, issues, _, hanswer, _, _, rfl⟩ := next_some hnext
    have hcost : (out.round round).costUsd = r.costUsd := by rw [RunReply.costUsd, hanswer]
    rw [costOf_succ, ← ih hv, hcost]
    rfl

theorem named_of_standing (h : standing p out (round + 1) = some u) : named p out ≠ none := by
  obtain ⟨v, _, hnext⟩ := Option.bind_eq_some_iff.mp h
  obtain ⟨_, _, _, _, _, _, hgoes, _⟩ := next_some hnext
  exact hgoes.session

def heldSession (p : SessionProposer) (out : ProposalOutside) : ℕ → Option Text
  | 0 => none
  | _ + 1 => named p out

def roundWorld (p : SessionProposer) (out : ProposalOutside) (round : ℕ) (u : ProposalUsage) : World :=
  { start out with sessionId := heldSession p out round, usage := u, taken := history round, runs := round }

theorem roundWorld_usage : (roundWorld p out round u).usage = u := rfl

def Ended (p : SessionProposer) (out : ProposalOutside) : Accounts := fun u runs sessionId =>
  (∀ j, Runs p out j ↔ j < runs) ∧ (0 < runs → sessionId = named p out) ∧ u.costUsd = costOf out runs

theorem history_held (s : Option Text) (u : ProposalUsage) (runs : ℕ) :
    Held out { start out with sessionId := s, usage := u, taken := history round, runs := runs } := by
  have hsteps : (history round).map (·.step) = [.openSink, .makeDirectory, .materialize] ++ List.replicate round .recordPreflight := by
    simp [history]
  refine ⟨?_, ?_, fun _ => .inl rfl, ?_, fun _ => .inl rfl⟩
  · show List.count _ ((history round).map (·.step)) = 0
    rw [hsteps]
    simp [List.count_replicate]
  · show List.count _ ((history round).map (·.step)) + 1 ≤ 1
    rw [hsteps]
    simp [List.count_replicate]
  · show List.filterMap _ ((history round).map (·.step)) = []
    rw [hsteps]
    simp [ResourceStep.released?]

theorem history_clean : ∀ t ∈ history round, t.succeeded = true := by
  intro t ht
  rcases List.mem_append.mp ht with ht | ht
  · have hstart : ∀ t ∈ [Taken.mk .openSink true, ⟨.makeDirectory, true⟩, ⟨.materialize, true⟩], t.succeeded = true := by
      decide
    exact hstart t ht
  · rw [List.eq_of_mem_replicate ht]

def Priced (A : Accounts) (o : ProposeResult) : Accounts := fun u runs sessionId => A u runs sessionId ∧ o.llmCost = u.costUsd

def Settled (out : ProposalOutside) (A : Accounts) (o : ProposeResult) : World → Prop :=
  Kept out (Priced A o) (o.proposal.isSome = true)

theorem failure_spec {A : Accounts} {c : Prop} {R : World → Prop} (reason : Text) :
    Triple (Kept out A c) (failure reason) (Settled out A) R :=
  .read fun _ h => .pure fun _ hw => by
    subst hw
    exact ⟨h.held, ⟨h.accounts, rfl⟩, fun h => by cases h⟩

theorem mayEscape_spec {P R : World → Prop} (error : Option Escaped) (h : ∀ w, P w → R w) :
    Triple P (mayEscape error) (fun _ => P) R := by
  cases error with
  | none => exact .pure fun _ => id
  | some e => exact .raise h

theorem success_spec {A : Accounts} (round : ℕ) (result : SessionResult) (child : Workspace) :
    Triple (Kept out A True) (success rd out round result child) (Settled out A) (Kept out A False) :=
  .bind (mayEscape_spec _ fun _ h => h.weaken nofun) fun _ =>
    .read fun _ h => .pure fun _ hw => by
      subst hw
      exact ⟨h.held, ⟨h.accounts, rfl⟩, fun _ => h.clean trivial⟩

theorem next_none (h : ∀ limits r issues, u.remainingLimits p.limits (out.round round).elapsed = .ok limits →
    (out.round round).answer = .result r → (out.round round).preflight = .checked none issues →
      ¬ GoesOn p out round limits r issues) : next p out round u = none := by
  cases hnext : next p out round u with
  | none => rfl
  | some u' =>
    obtain ⟨limits, r, issues, hlimits, hanswer, hpreflight, hgoes, _⟩ := next_some hnext
    exact absurd hgoes (h limits r issues hlimits hanswer hpreflight)

/-- The world in or after the run of a round, with `checks` checks on record. -/
def ranWorld (p : SessionProposer) (out : ProposalOutside) (round checks : ℕ) (u : ProposalUsage) : World :=
  { start out with sessionId := named p out, usage := u, taken := history checks, runs := round + 1 }

theorem ranWorld_kept {u' : ProposalUsage} {limits : AgentSessionLimits} (h : standing p out round = some u)
    (hlimits : u.remainingLimits p.limits (out.round round).elapsed = .ok limits) (hnext : next p out round u = none)
    (hcost : u'.costUsd = u.costUsd + (out.round round).costUsd) (checks : ℕ) :
    Kept out (Ended p out) True (ranWorld p out round checks u') where
  held := history_held _ _ _
  accounts := by
    refine ⟨runs_iff_of_last h hlimits hnext, fun _ => rfl, ?_⟩
    show u'.costUsd = costOf out (round + 1)
    rw [hcost, costOf_succ, standing_cost h]
  clean := fun _ => history_clean

theorem history_record (checks : ℕ) : history checks ++ [⟨.recordPreflight, true⟩] = history (checks + 1) := by
  unfold history
  rw [List.append_assoc, List.replicate_succ']

/-- What a round leaves: an outcome on the books, or the world of the next round. -/
def RoundLeaves (p : SessionProposer) (out : ProposalOutside) (round : ℕ) (u : ProposalUsage) :
    Option ProposeResult → World → Prop
  | some o => Settled out (Ended p out) o
  | none => fun w => ∃ u', next p out round u = some u' ∧ w = roundWorld p out (round + 1) u'

section
variable {limits : AgentSessionLimits} {r : SessionResult}

theorem judged_failure {w' : World} (hk : Kept out (Ended p out) True w') (reason : Text) :
    Triple (fun w => w = w') (some <$> failure reason) (RoundLeaves p out round u) (Kept out (Ended p out) False) := by
  rw [map_eq_pure_bind]
  exact .bind ((failure_spec reason).weaken fun _ hw => hw ▸ hk) fun o => .pure fun _ => id

theorem judgeRound_spec (h : standing p out round = some u)
    (hlimits : u.remainingLimits p.limits (out.round round).elapsed = .ok limits)
    (hanswer : (out.round round).answer = .result r) (hwithin : p.overruns limits r = false)
    (hsame : r.sessionId = none ∨ r.sessionId = named p out)
    (hrecorded : out.succeeds (history round) .recordPreflight = true)
    {child : Option Workspace} {issues : List PreflightIssue} (hchecked : (out.round round).preflight = .checked child issues) :
    Triple (fun w => w = ranWorld p out round (round + 1) (r.addTo u)) (judgeRound p rd out round r (child, issues))
      (RoundLeaves p out round u) (Kept out (Ended p out) False) := by
  have hcost : (r.addTo u).costUsd = u.costUsd + (out.round round).costUsd := by
    rw [RunReply.costUsd, hanswer]
    rfl
  -- the round is over when one of the conditions to go on fails
  have hkept (hstop : child = none → ¬ GoesOn p out round limits r issues) :
      Kept out (Ended p out) True (ranWorld p out round (round + 1) (r.addTo u)) := by
    refine ranWorld_kept h hlimits (next_none fun limits' r' issues' hl ha hp hgoes => ?_) hcost (round + 1)
    cases hlimits.symm.trans hl
    cases hanswer.symm.trans ha
    cases hchecked.symm.trans hp
    exact hstop rfl hgoes
  refine .read fun v hv => ?_
  subst hv
  cases child with
  | some child =>
    dsimp only
    rw [map_eq_pure_bind]
    refine .bind ((success_spec round r child).weaken fun _ hw => ?_) fun o => .pure fun _ => id
    exact hw ▸ hkept fun hnone => nomatch hnone
  | none =>
    dsimp only
    by_cases hrep : AgentSessionProposer.repairable issues = false
    · rw [if_pos hrep]
      exact judged_failure (hkept fun _ hgoes => absurd (hgoes.repairable.symm.trans hrep) (by simp)) _
    rw [if_neg hrep]
    by_cases hterm : r.termination ≠ .completed
    · rw [if_pos hterm]
      exact judged_failure (hkept fun _ hgoes => hterm hgoes.completed) _
    rw [if_neg hterm]
    by_cases hleft : p.maxRepairRounds ≤ round
    · rw [if_pos hleft]
      exact judged_failure (hkept fun _ hgoes => absurd hgoes.left (Nat.not_lt.mpr hleft)) _
    rw [if_neg hleft]
    by_cases hsession : (ranWorld p out round (round + 1) (r.addTo u)).sessionId = none
    · rw [if_pos hsession]
      exact judged_failure (hkept fun _ hgoes => hgoes.session hsession) _
    rw [if_neg hsession]
    refine .pure fun w hw => ⟨r.addTo u, ?_, hw⟩
    have hgoes : GoesOn p out round limits r issues :=
      ⟨hwithin, hsession, hsame, not_not.mp hterm, hrecorded, by simpa using hrep, Nat.not_le.mp hleft⟩
    unfold next
    rw [hlimits, hanswer, hchecked]
    exact if_pos hgoes

theorem checkRound_spec (h : standing p out round = some u)
    (hlimits : u.remainingLimits p.limits (out.round round).elapsed = .ok limits)
    (hanswer : (out.round round).answer = .result r) (hwithin : p.overruns limits r = false)
    (hsame : r.sessionId = none ∨ r.sessionId = named p out) :
    Triple (fun w => w = ranWorld p out round round (r.addTo u)) (checkRound p rd out round r)
      (RoundLeaves p out round u) (Kept out (Ended p out) False) := by
  have hcost : (r.addTo u).costUsd = u.costUsd + (out.round round).costUsd := by
    rw [RunReply.costUsd, hanswer]
    rfl
  have hkept (hstop : ∀ issues, (out.round round).preflight = .checked none issues → ¬ GoesOn p out round limits r issues) :
      Kept out (Ended p out) True (ranWorld p out round round (r.addTo u)) := by
    refine ranWorld_kept h hlimits (next_none fun limits' r' issues' hl ha hp hgoes => ?_) hcost round
    cases hlimits.symm.trans hl
    cases hanswer.symm.trans ha
    exact hstop issues' hp hgoes
  unfold checkRound
  by_cases herror : r.termination = .backendError
  · rw [if_pos herror]
    exact judged_failure (hkept fun _ _ hgoes => nomatch herror.symm.trans hgoes.completed) _
  rw [if_neg herror]
  cases hp : (out.round round).preflight with
  | raised described =>
    exact .bind (Q := fun _ _ => False) (.raise fun w hw => hw ▸ (hkept fun _ hp' => nomatch hp.symm.trans hp').weaken nofun)
      fun _ _ => False.elim
  | checked child issues =>
    refine .bind (Q := fun checked w => checked = (child, issues) ∧ w = ranWorld p out round round (r.addTo u))
      (.pure fun w hw => ⟨rfl, hw⟩) fun checked => .assume fun hchecked => ?_
    subst hchecked
    refine .bind (Q := fun _ w => out.succeeds (history round) .recordPreflight = true ∧
      w = ranWorld p out round (round + 1) (r.addTo u)) ?_ fun _ => .assume fun hrecorded =>
        judgeRound_spec h hlimits hanswer hwithin hsame hrecorded hp
    refine .mapError (.read fun v hv => ?_)
    subst hv
    refine take_spec (fun w hw hb => ?_) fun w hw hb => ?_
    · subst hw
      refine ⟨hb, ?_⟩
      unfold ranWorld World.after
      rw [history_record]
    · subst hw
      have hk := hkept fun _ _ hgoes => absurd (hgoes.recorded.symm.trans hb) (by simp)
      exact ⟨hk.held.plain rfl false, hk.accounts, nofun⟩

/-- What the proposal holds in the first round it got from the first run, and later it holds what the first run named. -/
theorem heldSession_eq (h : standing p out round = some u)
    (hfirst : round = 0 → named p out = none) : heldSession p out round = named p out := by
  cases round with
  | zero => exact (hfirst rfl).symm
  | succ round => rfl

def runWorld (p : SessionProposer) (out : ProposalOutside) (round : ℕ) (u : ProposalUsage) : World :=
  { roundWorld p out round u with runs := round + 1 }

theorem runWorld_eq (h : heldSession p out round = named p out) : runWorld p out round u = ranWorld p out round round u := by
  unfold runWorld roundWorld ranWorld
  rw [h]

theorem named_of_first (hstanding : standing p out 0 = some u)
    (hlimits : u.remainingLimits p.limits (out.round 0).elapsed = .ok limits) (hanswer : (out.round 0).answer = .result r) :
    named p out = if p.overruns limits r = true then none else r.sessionId := by
  cases hstanding
  unfold named
  rw [hlimits, hanswer]

theorem bindSession_spec (h : standing p out round = some u)
    (hlimits : u.remainingLimits p.limits (out.round round).elapsed = .ok limits)
    (hanswer : (out.round round).answer = .result r) (hwithin : p.overruns limits r = false) :
    Triple (fun w => w = runWorld p out round (r.addTo u)) (bindSession r.sessionId)
      (fun _ w => (r.sessionId = none ∨ r.sessionId = named p out) ∧ w = ranWorld p out round round (r.addTo u))
      (Kept out (Ended p out) False) := by
  have hfirst (h0 : round = 0) : named p out = r.sessionId := by
    subst h0
    rw [named_of_first h hlimits hanswer, hwithin]
    rfl
  refine .read fun v hv => ?_
  subst hv
  cases hid : r.sessionId with
  | none =>
    have hheld : heldSession p out round = named p out := heldSession_eq h fun h0 => (hfirst h0).trans hid
    exact .pure fun w hw => ⟨.inl rfl, hw.trans (runWorld_eq hheld)⟩
  | some new =>
    dsimp only
    rw [if_neg (by simp [r.session_named new hid])]
    cases round with
    | zero =>
      refine .modify fun w hw => ⟨.inr (hid.symm.trans (hfirst rfl).symm), ?_⟩
      subst hw
      unfold ranWorld
      rw [hfirst rfl, hid]
      rfl
    | succ k =>
      obtain ⟨id, hnamed⟩ := Option.ne_none_iff_exists'.mp (named_of_standing h)
      have hheld : (runWorld p out (k + 1) (r.addTo u)).sessionId = some id := hnamed
      rw [hheld]
      dsimp only
      by_cases hsame : id = new
      · rw [if_pos hsame]
        exact .pure fun w hw => ⟨.inr (by rw [hnamed, hsame]), hw⟩
      · rw [if_neg hsame]
        refine .raise fun w hw => hw ▸ (ranWorld_kept h hlimits (next_none fun limits' r' _ hl ha _ hgoes => ?_) ?_ (k + 1)).weaken nofun
        · cases hlimits.symm.trans hl
          cases hanswer.symm.trans ha
          rcases hgoes.same with hnone | hnamed'
          · cases hid.symm.trans hnone
          · exact hsame (Option.some.inj ((hid.symm.trans hnamed').trans hnamed)).symm
        · rw [RunReply.costUsd, hanswer]
          rfl

theorem lastRun_kept {u' : ProposalUsage} (h : standing p out round = some u)
    (hlimits : u.remainingLimits p.limits (out.round round).elapsed = .ok limits)
    (hrefused : ∀ r, (out.round round).answer = .result r → p.overruns limits r = true)
    (hcost : u'.costUsd = u.costUsd + (out.round round).costUsd) :
    Kept out (Ended p out) False (runWorld p out round u') := by
  have hnext : next p out round u = none := by
    refine next_none fun limits' r _ hl ha _ hgoes => ?_
    cases hlimits.symm.trans hl
    exact absurd (hgoes.within.symm.trans (hrefused r ha)) (by simp)
  have hheld : heldSession p out round = named p out := by
    refine heldSession_eq h fun h0 => ?_
    subst h0
    cases hanswer : (out.round 0).answer with
    | result r => rw [named_of_first h hlimits hanswer, if_pos (hrefused r hanswer)]
    | _ =>
      cases h
      unfold named
      rw [hlimits, hanswer]
  rw [runWorld_eq hheld]
  exact (ranWorld_kept h hlimits hnext hcost round).weaken nofun

theorem noResult_kept (h : standing p out round = some u)
    (hlimits : u.remainingLimits p.limits (out.round round).elapsed = .ok limits)
    (hno : ∀ r, (out.round round).answer ≠ .result r) : Kept out (Ended p out) False (runWorld p out round u) := by
  refine lastRun_kept h hlimits (fun r hr => absurd hr (hno r)) ?_
  unfold RunReply.costUsd
  cases hanswer : (out.round round).answer with
  | result r => exact absurd hanswer (hno r)
  | _ => exact (add_zero _).symm

theorem backendRun_spec (h : standing p out round = some u)
    (hlimits : u.remainingLimits p.limits (out.round round).elapsed = .ok limits) :
    Triple (fun w => w = roundWorld p out round u) (backendRun out round)
      (fun answer w => answer = (out.round round).answer ∧ w = runWorld p out round u) (Kept out (Ended p out) False) := by
  refine .bind (Q := fun _ w => w = runWorld p out round u) (.modify fun w hw => hw ▸ rfl) fun _ => ?_
  cases hanswer : (out.round round).answer with
  | raised e =>
    have hkept : Kept out (Ended p out) False (runWorld p out round u) :=
      noResult_kept h hlimits fun r hr => nomatch hanswer.symm.trans hr
    cases e with
    | billing error => exact .raise fun w hw => hw ▸ hkept
    | other described => exact .raise fun w hw => hw ▸ hkept
  | malformed => exact .pure fun w hw => ⟨rfl, hw⟩
  | result r => exact .pure fun w hw => ⟨rfl, hw⟩

theorem absorb_spec (h : standing p out round = some u)
    (hlimits : u.remainingLimits p.limits (out.round round).elapsed = .ok limits) :
    Triple (fun w => w = runWorld p out round u) (absorb p limits (out.round round).answer)
      (fun r w => ((out.round round).answer = .result r ∧ p.overruns limits r = false) ∧
        w = runWorld p out round (r.addTo u)) (Kept out (Ended p out) False) := by
  cases hanswer : (out.round round).answer with
  | raised e => exact .raise fun w hw => hw ▸ noResult_kept h hlimits fun r hr => nomatch hanswer.symm.trans hr
  | malformed => exact .raise fun w hw => hw ▸ noResult_kept h hlimits fun r hr => nomatch hanswer.symm.trans hr
  | result r =>
    refine .bind (Q := fun _ w => w = runWorld p out round (r.addTo u)) (.modify fun w hw => hw ▸ rfl) fun _ => ?_
    by_cases hover : p.overruns limits r = true
    · rw [if_pos hover]
      refine .raise fun w hw => hw ▸ lastRun_kept h hlimits (fun r' hr' => ?_) ?_
      · cases hanswer.symm.trans hr'
        exact hover
      · rw [RunReply.costUsd, hanswer]
        rfl
    · rw [if_neg hover]
      exact .pure fun w hw => ⟨⟨rfl, by simpa using hover⟩, hw⟩

end

theorem roundWorld_kept {e : SessionFault} (h : standing p out round = some u)
    (hlimits : u.remainingLimits p.limits (out.round round).elapsed = .error e) :
    Kept out (Ended p out) False (roundWorld p out round u) where
  held := history_held _ _ _
  accounts := by
    refine ⟨runs_iff_of_exhausted h hlimits, fun hpos => ?_, standing_cost h⟩
    cases round with
    | zero => cases hpos
    | succ k => rfl
  clean := nofun

theorem repairRound_spec (h : standing p out round = some u) :
    Triple (fun w => w = roundWorld p out round u) (repairRound p rd out round) (RoundLeaves p out round u)
      (Kept out (Ended p out) False) := by
  refine .bind (Q := fun limits w => u.remainingLimits p.limits (out.round round).elapsed = .ok limits ∧
    w = roundWorld p out round u) (.read fun v hv => ?_) fun limits => .assume fun hlimits => ?_
  · subst hv
    simp only [roundWorld_usage]
    cases hlimits : u.remainingLimits p.limits (out.round round).elapsed with
    | ok limits => exact .pure fun w hw => ⟨rfl, hw⟩
    | error e => exact .raise fun w hw => hw ▸ roundWorld_kept h hlimits
  refine .bind (backendRun_spec h hlimits) fun answer => .assume fun hanswer => ?_
  subst hanswer
  refine .bind (absorb_spec h hlimits) fun r => .assume fun ⟨hanswer, hwithin⟩ => ?_
  refine .bind (Triple.mapError (bindSession_spec h hlimits hanswer hwithin)) fun _ => .assume fun hsame => ?_
  exact checkRound_spec h hlimits hanswer hwithin hsame

theorem standing_le (h : standing p out (round + 1) = some u) : round < p.maxRepairRounds := by
  obtain ⟨v, _, hnext⟩ := Option.bind_eq_some_iff.mp h
  obtain ⟨_, _, _, _, _, _, hgoes, _⟩ := next_some hnext
  exact hgoes.left

theorem rounds_spec (left : ℕ) (hleft : round + left = p.maxRepairRounds + 1) (h : standing p out round = some u) :
    Triple (fun w => w = roundWorld p out round u) (rounds p rd out left round)
      (Settled out (Ended p out)) (Kept out (Ended p out) False) := by
  induction left generalizing round u with
  | zero =>
    exfalso
    cases round with
    | zero => omega
    | succ k =>
      have := standing_le h
      omega
  | succ left ih =>
    refine .bind (repairRound_spec h) fun judged => ?_
    cases judged with
    | some outcome => exact .pure fun _ => id
    | none =>
      refine .each fun u' => .assume fun hnext => ih (by omega) ?_
      show (standing p out round).bind _ = _
      rw [h]
      exact hnext

theorem runLoop_spec : Triple (fun w => w = start out) (runLoop p rd out)
    (Settled out (Ended p out)) (Kept out (Ended p out) False) := by
  refine .read fun v hv => ?_
  subst hv
  rw [if_neg (by simp [start])]
  exact rounds_spec (p.maxRepairRounds + 1) (Nat.zero_add _) rfl

theorem onFault_spec {A : Accounts} {R : World → Prop} {e : SessionFault} {handle : Session ProposeResult}
    (h : onFault e = some handle) : Triple (Kept out A False) handle (Settled out A) R := by
  cases e with
  | billing error => cases h
  | loop code =>
    cases h
    exact failure_spec code
  | resource code =>
    cases h
    exact failure_spec code
  | other described =>
    cases h
    exact failure_spec _

theorem captureRun_spec : Triple (fun w => w = start out) (captureRun p rd out)
    (Settled out (Ended p out)) (Kept out (Ended p out) False) :=
  .rescue runLoop_spec fun _ _ => onFault_spec

theorem settleStep_spec {A : Accounts} {action : Step Unit} {outcome : ProposeResult}
    (haction : ∀ A c, Triple (Kept out A c) action (fun _ => Kept out A c) (Kept out A False)) :
    Triple (Settled out A outcome) (settleStep action outcome) (Settled out A) (Kept out A False) := by
  refine .rescue (.bind (Triple.mapError ((haction _ _).raising (Kept out A False) fun w h => ?_)) fun _ => .pure fun _ => id) ?_
  · exact ⟨h.held, h.accounts.1, nofun⟩
  · intro e handle hhandle
    cases e with
    | resource code =>
      cases hhandle
      exact failure_spec code
    | _ => cases hhandle

theorem settleResources_spec {A : Accounts} {outcome : ProposeResult} :
    Triple (Settled out A outcome) (settleResources out outcome) (Settled out A) (Kept out A False) :=
  .bind (settleStep_spec fun _ _ => releaseSession_spec.conseq (fun _ => id) (fun _ _ => And.left) fun _ => And.left)
    fun _ => settleStep_spec fun _ _ => flushSink_spec

theorem Settled.unclean {A : Accounts} {outcome : ProposeResult} {w : World} (h : Settled out A outcome w) :
    Kept out A False w := ⟨h.held, h.accounts.1, nofun⟩

theorem renderPatch_spec {A : Accounts} {outcome : ProposeResult} :
    Triple (Settled out A outcome) (renderPatch out outcome) (Settled out A) (Kept out A False) := by
  refine .read fun v h => ?_
  by_cases hproposal : outcome.proposal.isSome = true
  · rw [if_pos hproposal]
    by_cases hpatch : (out.patch.getD []).isEmpty = true
    · rw [if_pos hpatch]
      exact (failure_spec _).weaken fun _ hw => hw ▸ h.unclean
    · rw [if_neg hpatch]
      exact .pure fun _ hw => hw ▸ h
  · rw [if_neg hproposal]
    by_cases hdir : v.workdir = true
    · rw [if_pos hdir]
      exact .bind (mayEscape_spec _ fun _ hw => hw ▸ h.unclean) fun _ => .pure fun _ hw => hw ▸ h
    · rw [if_neg hdir]
      exact .pure fun _ hw => hw ▸ h

theorem finalizeTranscript_spec {A : Accounts} {outcome : ProposeResult} :
    Triple (Settled out A outcome) (finalizeTranscript out outcome) (Settled out A) (Kept out A False) :=
  .bind renderPatch_spec fun _ => .bind (mayEscape_spec _ fun _ h => h.unclean) fun _ =>
    .bind (Triple.mapError (finalize_spec.raising _ fun _ h => ⟨h.held, h.accounts.1, nofun⟩)) fun _ => .pure fun _ => id

theorem body_spec : Triple (fun w => w = start out) (body p rd out) (Settled out (Ended p out)) (Kept out (Ended p out) False) :=
  .bind captureRun_spec fun _ => .bind settleResources_spec fun _ => finalizeTranscript_spec

theorem Left.settled {A : Accounts} {o : ProposeResult} {w : World} (h : Left out A False w) (hcost : o.llmCost = w.usage.costUsd)
    (hproposal : o.proposal = none) : Left out (Priced A o) (o.proposal.isSome = true) w :=
  ⟨⟨h.held, ⟨h.accounts, hcost⟩, fun hsome => by simp [hproposal] at hsome⟩, h.released, h.sink, h.temporaryDirectory⟩

theorem left_failure {A : Accounts} {R : World → Prop} (reason : Text) :
    Triple (Left out A False) (failure reason) (fun o => Left out (Priced A o) (o.proposal.isSome = true)) R :=
  .read fun _ h => .pure fun _ hw => by
    subst hw
    exact h.settled rfl rfl

def Over (p : SessionProposer) (out : ProposalOutside) (operator system user : Text) : Accounts :=
  fun u runs sessionId =>
    (∀ j, Asked p out operator system user j ↔ j < runs) ∧ (0 < runs → sessionId = named p out) ∧ u.costUsd = costOf out runs

variable {operator system user : Text}

theorem over_unused (h : ∀ j, ¬ Asked p out operator system user j) {u : ProposalUsage} {runs : ℕ} {sessionId : Option Text}
    (hunused : Unused u runs sessionId) : Over p out operator system user u runs sessionId := by
  obtain ⟨rfl, rfl, rfl⟩ := hunused
  exact ⟨fun j => iff_of_false (h j) (Nat.not_lt_zero j), fun hpos => absurd hpos (lt_irrefl 0), rfl⟩

theorem empty_left {A : Accounts} {c : Prop} (h : A {} 0 none) : Left out A c {} :=
  ⟨⟨⟨rfl, Nat.zero_le 1, fun ho => (nomatch ho.1), rfl, nofun⟩, h, fun _ => nofun⟩, nofun, rfl, rfl⟩

variable (p rd out) in
theorem session_spec (hinputs : isBlank operator = false ∧ isBlank system = false ∧ isBlank user = false) :
    Triple (fun w => w = {}) (session p rd out)
      (fun o => Left out (Priced (Over p out operator system user) o) (o.proposal.isSome = true))
      (Left out (Over p out operator system user) False) := by
  unfold session
  by_cases hid : out.proposalId.any isProposalId = true
  · rw [if_pos hid]
    refine .rescue ?_ fun e handle hhandle => ?_
    · refine withResources_spec (A := fun o => Priced (Over p out operator system user) o) (fun henter => ?_)
        (fun o u runs sessionId h => h.1) fun hnot u runs sessionId => over_unused fun j hj => hnot hj.2.2.1
      have hover {u : ProposalUsage} {runs : ℕ} {sessionId : Option Text} (h : Ended p out u runs sessionId) :
          Over p out operator system user u runs sessionId :=
        ⟨fun j => ⟨fun hj => (h.1 j).mp hj.2.2.2, fun hj => ⟨hinputs, hid, henter, (h.1 j).mpr hj⟩⟩, h.2⟩
      exact body_spec.conseq (fun _ => id) (fun o w h => ⟨h.held, ⟨hover h.accounts.1, h.accounts.2⟩, h.clean⟩)
        fun w h => ⟨h.held, hover h.accounts, nofun⟩
    · cases e with
      | billing error => cases hhandle
      | loop code =>
        cases hhandle
        exact left_failure code
      | resource code =>
        cases hhandle
        exact left_failure code
      | other described =>
        cases hhandle
        exact left_failure _
  · rw [if_neg hid]
    refine (left_failure _).weaken fun w hw => ?_
    subst hw
    exact empty_left (over_unused (fun j hj => hid hj.2.1) ⟨rfl, rfl, rfl⟩)

variable (p rd out) in
theorem propose_ends (operator system user : Text) :
    Left out (Over p out operator system user) False (propose p rd out operator system user).2 ∧
      ∀ o, (propose p rd out operator system user).1 = .ok o →
        o.llmCost = (propose p rd out operator system user).2.usage.costUsd ∧
          (o.proposal.isSome = true → (propose p rd out operator system user).2.Clean) := by
  have hblank (h : ∀ j, ¬ Asked p out operator system user j) : Left out (Over p out operator system user) False {} :=
    empty_left (over_unused h ⟨rfl, rfl, rfl⟩)
  unfold propose
  by_cases ho : isBlank operator = true
  · rw [if_pos ho]
    exact ⟨hblank fun j hj => absurd (hj.1.1.symm.trans ho) (by simp), nofun⟩
  rw [if_neg ho]
  by_cases hs : isBlank system = true
  · rw [if_pos hs]
    exact ⟨hblank fun j hj => absurd (hj.1.2.1.symm.trans hs) (by simp), nofun⟩
  rw [if_neg hs]
  by_cases hu : isBlank user = true
  · rw [if_pos hu]
    exact ⟨hblank fun j hj => absurd (hj.1.2.2.symm.trans hu) (by simp), nofun⟩
  rw [if_neg hu]
  have hsession := session_spec p rd out
    ⟨by simpa using ho, by simpa using hs, by simpa using hu⟩ {} rfl
  dsimp only
  cases hended : session p rd out {} with
  | mk r w =>
    rw [hended] at hsession
    cases r with
    | error e => exact ⟨hsession, nofun⟩
    | ok o =>
      refine ⟨⟨⟨hsession.held, hsession.accounts.1, nofun⟩, hsession.released, hsession.sink, hsession.temporaryDirectory⟩, ?_⟩
      intro o' ho'
      cases ho'
      exact ⟨hsession.accounts.2, hsession.clean⟩

structure LeavesNothing (out : ProposalOutside) (ended : Except RunFault ProposeResult × World) : Prop where
  /-- Each session that the backend opened in a run was released, once. -/
  sessions : ∀ k < ended.2.runs, ∀ id ∈ (out.round k).opened, ended.2.released.count id = 1
  flushed : ended.2.steps.count .flush ≤ 1
  closed : ended.2.steps.count .close ≤ 1
  open_closed : ended.2.opened out → .close ∈ ended.2.steps
  directory : ended.2.directory = true → ⟨.removeDirectory, false⟩ ∈ ended.2.taken
  success : ∀ r, ended.1 = .ok r → r.proposal.isSome = true → ended.2.Clean
  cost : ∀ r, ended.1 = .ok r → r.llmCost = costOf out ended.2.runs

theorem Left.released_eq {A : Accounts} {c : Prop} {w : World} (h : Left out A c w) : w.released = w.sessionId.toList := by
  rw [h.held.released]
  cases hid : w.sessionId with
  | none => split <;> rfl
  | some id => rw [if_pos (h.released (by simp [hid]))]

/-- Of the sessions opened in a run, the one that the first run named is released, and no other. -/
theorem released_iff {w : World} (h : Left out (Over p out operator system user) False w) {k : ℕ} (hk : k < w.runs) (id : Text) :
    w.released.count id = 1 ↔ named p out = some id := by
  rw [h.released_eq, h.accounts.2.1 (by omega)]
  cases named p out with
  | none => simp
  | some named =>
    by_cases hid : named = id
    · simp [hid]
    · simp [hid]

/-- Exactly when every session opened in a run is the one that the first run's accepted result names. -/
theorem propose_leaves_nothing_iff (p : SessionProposer) (rd : Reading) (out : ProposalOutside) (operator system user : Text) :
    LeavesNothing out (propose p rd out operator system user) ↔
      ∀ k, Asked p out operator system user k → ∀ id ∈ (out.round k).opened, named p out = some id := by
  obtain ⟨hleft, hresult⟩ := propose_ends p rd out operator system user
  have hruns := hleft.accounts.1
  constructor
  · intro h k hk id hid
    have hlt := (hruns k).mp hk
    exact (released_iff hleft hlt id).mp (h.sessions k hlt id hid)
  · intro h
    refine ⟨fun k hk id hid => ?_, ?_, ?_, fun ho => ?_, fun hd => ?_, fun r hr => (hresult r hr).2, fun r hr => ?_⟩
    · exact (released_iff hleft hk id).mpr (h k ((hruns k).mpr hk) id hid)
    · rw [hleft.held.flushed]
      exact Bool.toNat_le _
    · exact le_trans (Nat.le_add_right _ _) hleft.held.closed
    · rcases hleft.held.open_or_closed ho with hsink | hclosed
      · exact absurd (hsink.symm.trans hleft.sink) (by simp)
      · exact hclosed
    · rcases hleft.held.directory hd with htemp | hfailed
      · exact absurd (htemp.symm.trans hleft.temporaryDirectory) (by simp)
      · exact hfailed
    · rw [(hresult r hr).1]
      exact hleft.accounts.2.2

end

def oneTurnOver : ProposalOutside where
  proposalId := some "proposal-1".toList
  succeeds := fun _ _ => true
  round := fun _ => {
    opened := ["session-1".toList]
    answer := .result {
      termination := .completed
      sessionId := some "session-1".toList
      turns := 13
      session_named := by
        intro id hid
        cases hid
        decide }
    preflight := .checked none [] }
  patch := none

def twelveTurns : SessionProposer where
  limits := .default

def oneFile : Reading where
  mainText w := w.code
  texts w := [("main.py".toList, w.code)]
  withFiles _ _ := none
  parseChangeHeader _ := ([], [])
  parseFileBlocks _ := []
  applyPatch _ _ := none
  applyRewrite _ _ := none

/-- The session is only bound after its result was judged, so that it is never released. -/
theorem session_leaked : ¬ LeavesNothing oneTurnOver (propose twelveTurns oneFile oneTurnOver ['o'] ['s'] ['u']) := by
  obtain ⟨limits, hlimits, hturns⟩ : ∃ limits, ({} : ProposalUsage).remainingLimits twelveTurns.limits 0 = .ok limits ∧
      limits.maxTurns = 12 := by
    rw [ProposalUsage.remainingLimits, dif_neg (not_le.mpr twelveTurns.limits.timeout_pos), dif_neg (by decide),
      if_neg (by decide)]
    exact ⟨_, rfl, rfl⟩
  have hasked : Asked twelveTurns oneTurnOver ['o'] ['s'] ['u'] 0 :=
    ⟨by decide, by decide, ⟨rfl, ⟨none, rfl, rfl⟩, rfl, rfl, rfl, rfl⟩, {}, limits, rfl, hlimits⟩
  have hnamed : named twelveTurns oneTurnOver = none := by
    unfold named
    rw [show (oneTurnOver.round 0).elapsed = 0 from rfl, hlimits]
    refine if_pos ?_
    simp [SessionProposer.overruns, twelveTurns, hturns]
  intro h
  have hleft := (propose_ends twelveTurns oneFile oneTurnOver ['o'] ['s'] ['u']).1
  have hlt := (hleft.accounts.1 0).mp hasked
  have hreleased := (released_iff hleft hlt "session-1".toList).mp (h.sessions 0 hlt _ List.mem_cons_self)
  cases hnamed.symm.trans hreleased

end EvoHarness.Core.ProposalResources
