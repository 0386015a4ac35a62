import EvoHarness.Upkeep

/-! The controller's operations, one after another: which of them may leave a status
behind that the rows no longer give. -/
namespace EvoHarness.Proof
open PyText Hoare Runs

variable {σ : Type} (env : Env σ) (cfg : Config)

/-- Every stored status is the one the goal's attempts and decompositions give, and no
ACCEPTED decomposition has all of its subgoals PROVED. -/
def Store.NoStale (maxAttempts : ℤ) (s : Store) : Prop :=
  (∀ i g, s.goal i = some g → g.status = s.derived maxAttempts i) ∧
    ∀ d ∈ s.decompositions, d.status = .accepted → ¬ ∀ j ∈ d.subgoalIds, s.Proved j

/- When an operation is quiet: no proposal on an EXHAUSTED goal goes without a verdict, and
no proposal without a sketch was all that kept its goal OPEN. Each is asked of the state
in which the operation gets there. -/

def QuietRecord (goal : Goal) (sketch : Sketch) (w : World σ) : Prop :=
  ∀ t e, w.store.addDecomposition goal.id (sketch.subgoals.map fun p => (p.identity, p.signature))
      (some sketch) = .ok t →
    (env.validateSketch goal sketch w.env).1 = .error e → w.store.statusOf goal.id ≠ .exhausted

def QuietDecompose (goal : Goal) : World σ → Prop :=
  (ask (env.propose goal)).Then fun proposed w => ∀ sketch, proposed = some sketch → QuietRecord env goal sketch w

def QuietOne (d : DecompositionRow) (w : World σ) : Prop :=
  d.sketch = none → w.store.statusOf d.goalId = .opened →
    w.store.derivedWithout cfg.maxCapabilityAttempts d ≠ .exhausted

def QuietEach : List DecompositionRow → World σ → Prop
  | [], _ => True
  | d :: ds, w => QuietOne cfg d w ∧ (revalidateOne env cfg d).Then (fun _ => QuietEach ds) w

def QuietJudge (goal : Goal) (result : AttemptResult) : World σ → Prop :=
  read.Then fun s => (perform (s.recordAttempt (result.toAttempt goal.id))).Then fun _ =>
    (propagateFrom env cfg goal.id).Then fun _ w =>
      result.outcome ∉ noVerdictOutcomes → result.outcome ≠ .proved → QuietDecompose env goal w

def QuietAttack (goal : Goal) (budget : ℚ) : World σ → Prop :=
  (ask (env.attack goal budget)).Then fun answer => (noteDir goal.id answer.1).Then fun _ w =>
    ∀ result, answer.2 = .ok result → QuietJudge env cfg goal result w

def QuietWork (root : GoalId) (goal : Goal) (budget : ℚ) (p : Progress) (w : World σ) : Prop :=
  if cfg.decomposeRootFirst = true ∧ goal.id = root ∧ w.store.decompositionsOf goal.id = [] then
    QuietDecompose env goal w ∧ (decomposeAndRescope env cfg root goal p).Then
      (fun q w => p.counted.accepted < q.counted.accepted ∨ QuietAttack env cfg goal budget w) w
  else QuietAttack env cfg goal budget w

def QuietPass (root : GoalId) (budget : ℚ) (p : Progress) (w : World σ) : Prop :=
  w.store.statusOf root ≠ .proved → w.store.totalCost < budget →
    (claimNext env cfg (actionableGoals w.store p.scope).length (actionableGoals w.store p.scope)).Then
      (fun claimed v => ∀ goal, claimed = some goal →
        QuietWork env cfg root goal (budget - w.store.totalCost) { p with iterations := p.iterations + 1 } v) w

inductive Operation where
  | upsertGoal (identity statement : Text)
  | recordDecomposition (goal : Goal) (sketch : Sketch)
  | revalidateProposed
  | recover (now : Option ℚ)
  | iterate (root : GoalId) (budget : ℚ) (p : Progress)

def Operation.exec (o : Operation) (w : World σ) : World σ :=
  match o with
  | .upsertGoal i t => (Proof.upsertGoal i t w).2
  | .recordDecomposition g k => (Proof.recordDecomposition env cfg g k w).2
  | .revalidateProposed => (Proof.revalidateProposed env cfg w).2
  | .recover now => (Proof.recover env cfg now w).2
  | .iterate r b p => (solvePass env cfg r b p w).2

def Operation.Quiet (w : World σ) : Operation → Prop
  | .upsertGoal _ _ => True
  | .recordDecomposition g k => QuietRecord env g k w
  | .revalidateProposed => QuietEach env cfg w.store.proposedDecompositions w
  | .recover _ => QuietEach env cfg w.store.proposedDecompositions w
  | .iterate r b p => QuietPass env cfg r b p w

variable {env cfg}

abbrev Good (cfg : Config) (w : World σ) : Prop := Steady cfg.maxCapabilityAttempts w.store

theorem Good.of_store {v w : World σ} (h : Good cfg w) (hv : v.store = w.store) : Good cfg v := by
  rw [Good, hv]
  exact h

theorem TouchedAt.refl {n : ℤ} (s : Store) (i : GoalId) : TouchedAt n s s i :=
  Alike.refl.touched i

theorem propagateFrom_settles {s t : Store} {i : GoalId} (hs : Steady cfg.maxCapabilityAttempts s)
    (ht : TouchedAt cfg.maxCapabilityAttempts s t i) (hi : i < t.goals.length) :
    Triple (fun w : World σ => w.store = t) (propagateFrom env cfg i)
      (fun _ w => Good cfg w ∧ Advances t w.store) (fun _ => False) := by
  unfold propagateFrom
  refine Triple.bind read_at fun s' => Triple.assume fun hs' => ?_
  exact propagate_exact i t hi (ht.wide hs.wide) (ht.keeps hs) fun j hj => ht.others hs hj

theorem writeVerdict_settles (env : Env σ) {s t : Store} {i : GoalId} {k : DecompositionId} {d : DecompositionRow}
    (hs : Steady cfg.maxCapabilityAttempts s) (ht : TouchedAt cfg.maxCapabilityAttempts s t i)
    (hd : t.decomposition k = some d) (hg : d.goalId = i) (hp : d.status ≠ .completed) (v : Validation) :
    Triple (fun w : World σ => w.store = t) (writeVerdict env cfg i k v)
      (fun _ w => Good cfg w ∧ Advances (t.setDecompositionStatus k (verdictStatus v) v.reason) w.store)
      (fun _ => False) := by
  have hset := touched_setStatus (n := cfg.maxCapabilityAttempts) hd hp (verdictStatus v) v.reason
  rw [hg] at hset
  have hi : i < t.goals.length := hg ▸ Store.decomposition_goal_lt (List.mem_of_getElem? hd)
  unfold writeVerdict
  refine Triple.bind read_at fun s' => Triple.assume fun hs' => ?_
  rw [hs']
  exact Triple.bind commit_at fun _ => propagateFrom_settles hs (ht.trans hset) hi

theorem settle_settles (env : Env σ) {s t : Store} {i : GoalId} {k : DecompositionId} {d : DecompositionRow}
    (hs : Steady cfg.maxCapabilityAttempts s) (ht : TouchedAt cfg.maxCapabilityAttempts s t i)
    (hd : t.decomposition k = some d) (hg : d.goalId = i) (hp : d.status ≠ .completed) (v : Validation) :
    Triple (fun w : World σ => w.store = t) (settle env cfg i k v)
      (fun _ w => Good cfg w ∧ Advances (t.setDecompositionStatus k (verdictStatus v) v.reason) w.store)
      (fun _ => False) := by
  have hverdict := writeVerdict_settles env hs ht hd hg hp v
  unfold settle
  split
  · refine Triple.bind (Q := fun _ w => w.store = t) (Triple.modify fun w hw => hw) fun _ => ?_
    exact Triple.bind hverdict fun _ => Triple.pure fun w hw => hw
  · exact Triple.bind hverdict fun _ => Triple.pure fun w hw => hw

theorem recordDecomposition_settles (goal : Goal) (sketch : Sketch) :
    Triple (fun w : World σ => Good cfg w ∧ QuietRecord env goal sketch w)
      (recordDecomposition env cfg goal sketch) (fun _ => Good cfg) (Good cfg) := by
  intro w hw
  obtain ⟨hgood, hquiet⟩ := hw
  have hrun : Triple (fun v : World σ => v.store = w.store ∧ v.env = w.env)
      (recordDecomposition env cfg goal sketch) (fun _ => Good cfg) (Good cfg) := by
    unfold recordDecomposition
    refine Triple.bind (Q := fun s v => s = w.store ∧ v.store = w.store ∧ v.env = w.env)
      (fun v hv => ⟨hv.1, hv⟩) fun s => Triple.assume fun hs => ?_
    rw [hs]
    split
    · exact Triple.pure fun v hv => hgood.of_store hv.1
    · exact Triple.raise fun v hv => hgood.of_store hv.1
    · next t ht =>
      have htouched := touched_addDecomposition (n := cfg.maxCapabilityAttempts) ht
      obtain ⟨d, hd, hg, hp⟩ := proposed_addDecomposition ht
      refine Triple.bind (Q := fun _ v => v.store = t ∧ v.env = w.env) (commit_spec fun v hv => ⟨rfl, hv.2⟩)
        fun _ => ?_
      refine Triple.bind (Q := fun verdict v => verdict = (env.validateSketch goal sketch w.env).1 ∧ v.store = t)
        (Triple.call fun v hv => ⟨by rw [hv.2], hv.1⟩) fun verdict => Triple.assume fun hverdict => ?_
      cases verdict with
      | error e =>
        have hsettled := settledAt_deferred hgood ht (hquiet t e ht hverdict.symm)
        refine Triple.pure fun v hv => ?_
        rw [Good, hv]
        exact (htouched.steady_iff hgood).mpr hsettled
      | ok v =>
        exact (settle_settles env hgood htouched hd hg (by simp [hp]) v).conseq (fun _ => id)
          (fun _ _ h => h.1) fun _ h => h.elim
  exact hrun w ⟨rfl, rfl⟩

theorem maybeDecompose_settles (goal : Goal) :
    Triple (fun w : World σ => Good cfg w ∧ QuietDecompose env goal w)
      (maybeDecompose env cfg goal) (fun _ => Good cfg) (Good cfg) := by
  unfold maybeDecompose QuietDecompose
  refine Triple.bind_then (Q := fun _ => Good cfg) (ask_spec fun w e hw => hw) fun proposed => ?_
  cases proposed with
  | none => exact Triple.pure fun w hw => hw.1
  | some sketch => exact (recordDecomposition_settles goal sketch).weaken fun w hw => ⟨hw.1, hw.2 sketch rfl⟩

theorem decomposeAndRescope_settles (root : GoalId) (goal : Goal) (p : Progress) :
    Triple (fun w : World σ => Good cfg w ∧ QuietDecompose env goal w)
      (decomposeAndRescope env cfg root goal p) (fun _ => Good cfg) (Good cfg) := by
  unfold decomposeAndRescope
  refine Triple.bind (maybeDecompose_settles goal) fun counted => ?_
  exact Triple.bind read_spec fun s => Triple.pure fun w hw => hw.1

def Unjudged (ds : List DecompositionRow) (s : Store) : Prop :=
  ∀ d ∈ ds, ∃ e, s.decomposition d.id = some e ∧ e.status = .proposed ∧ e.goalId = d.goalId

theorem Unjudged.advances {ds : List DecompositionRow} {s t : Store} (h : Unjudged ds s)
    (ha : Advances s t) : Unjudged ds t := by
  intro d hd
  obtain ⟨e, he, hp, hg⟩ := h d hd
  obtain ⟨f, hf, hfg, _, _, hst⟩ := ha.row he
  refine ⟨f, hf, ?_, hfg.trans hg⟩
  cases hst with
  | inl hst => exact hst.trans hp
  | inr hst => simp [hp] at hst

theorem Unjudged.set {d : DecompositionRow} {ds : List DecompositionRow} {s : Store}
    (h : Unjudged (d :: ds) s) (hd : d.id ∉ ds.map (·.id)) (st : DecompositionStatus) (r : Text) :
    Unjudged ds (s.setDecompositionStatus d.id st r) := by
  intro e he
  have hne : d.id ≠ e.id := fun heq => hd (heq ▸ List.mem_map_of_mem he)
  rw [Store.decomposition_setDecompositionStatus, if_neg hne]
  exact h e (List.mem_cons_of_mem d he)

theorem revalidateOne_settles (d : DecompositionRow) {ds : List DecompositionRow} (hd : d.id ∉ ds.map (·.id)) :
    Triple (fun w : World σ => Good cfg w ∧ Unjudged (d :: ds) w.store ∧ QuietOne cfg d w)
      (revalidateOne env cfg d) (fun _ w => Good cfg w ∧ Unjudged ds w.store) (Good cfg) := by
  intro w hw
  obtain ⟨hgood, hrows, hquiet⟩ := hw
  obtain ⟨e, he, hp, hg⟩ := hrows d (List.mem_cons_self ..)
  have hrest : Unjudged ds w.store := fun f hf => hrows f (List.mem_cons_of_mem d hf)
  have hrun : Triple (fun v : World σ => v.store = w.store) (revalidateOne env cfg d)
      (fun _ v => Good cfg v ∧ Unjudged ds v.store) (Good cfg) := by
    unfold revalidateOne
    split
    · next hnone =>
      refine Triple.bind read_at fun s => Triple.assume fun hs => ?_
      rw [hs]
      refine Triple.bind commit_at fun _ => Triple.pure fun v hv => ?_
      rw [Good, hv]
      have hsame : w.store.derivedWithout cfg.maxCapabilityAttempts e =
          w.store.derivedWithout cfg.maxCapabilityAttempts d := by
        simp only [Store.derivedWithout, hg, Store.decomposition_id he]
      have hsettled := settledAt_unsketched (r := "the decomposition was recorded without a sketch".toList)
        hgood he hp fun hopen => hsame ▸ hquiet hnone (hg ▸ hopen)
      exact ⟨((touched_setStatus he (by simp [hp]) _ _).steady_iff hgood).mpr hsettled, hrows.set hd _ _⟩
    · next sketch _ =>
      refine Triple.bind read_at fun s => Triple.assume fun hs => ?_
      rw [hs]
      refine Triple.bind (lookup_spec fun v hv => hgood.of_store hv) fun goal => ?_
      refine Triple.bind (ask_spec fun v e hv => hv) fun verdict => ?_
      cases verdict with
      | error _ => exact Triple.pure fun v hv => ⟨hgood.of_store hv.1, hv.1 ▸ hrest⟩
      | ok v =>
        intro u hu
        have hid : goal.id = d.goalId := Store.goal_id hu.2
        rw [hid]
        have hsettle := settle_settles env hgood (.refl w.store d.goalId) he hg (by simp [hp]) v
        refine (hsettle.conseq (fun _ => id) (fun _ x hx => ?_) fun _ h => h.elim) u hu.1
        exact ⟨hx.1, (hrows.set hd _ _).advances hx.2⟩
  exact hrun w rfl

theorem revalidateEach_settles (ds : List DecompositionRow) (hnd : (ds.map (·.id)).Nodup)
    (totals : DecompositionOutcome) :
    Triple (fun w : World σ => (Good cfg w ∧ Unjudged ds w.store) ∧ QuietEach env cfg ds w)
      (revalidateEach env cfg ds totals) (fun _ => Good cfg) (Good cfg) := by
  induction ds generalizing totals with
  | nil => exact Triple.pure fun w hw => hw.1.1
  | cons d ds ih =>
    obtain ⟨hd, hnd⟩ := List.nodup_cons.mp hnd
    unfold revalidateEach
    refine (Triple.bind_then (revalidateOne_settles d hd) fun one => ih hnd _).weaken fun w hw => ?_
    exact ⟨⟨hw.1.1, hw.1.2, hw.2.1⟩, hw.2.2⟩

theorem revalidateProposed_settles :
    Triple (fun w : World σ => Good cfg w ∧ QuietEach env cfg w.store.proposedDecompositions w)
      (revalidateProposed env cfg) (fun _ => Good cfg) (Good cfg) := by
  unfold revalidateProposed
  refine Triple.bind read_spec fun s => ?_
  have hnd : (s.proposedDecompositions.map (·.id)).Nodup := by
    refine List.Nodup.sublist (List.Sublist.map _ List.filter_sublist) ?_
    rw [s.decomposition_ids]
    exact List.nodup_range
  refine (revalidateEach_settles s.proposedDecompositions hnd {}).weaken fun w hw => ?_
  obtain ⟨⟨hgood, hquiet⟩, rfl⟩ := hw
  refine ⟨⟨hgood, fun d hd => ?_⟩, hquiet⟩
  simp only [Store.proposedDecompositions, List.mem_filter, decide_eq_true_eq] at hd
  exact ⟨d, Store.mem_decompositions_iff.mp hd.1, hd.2, rfl⟩

theorem commit_alike {t : Store} {P : World σ → Prop} (h : ∀ w, P w → Good cfg w ∧ Alike w.store t) :
    Triple P (commit t) (fun _ => Good cfg) (Good cfg) :=
  commit_spec fun w hw => (h w hw).2.steady (h w hw).1

/-- An attempt is recorded at `s`, and nothing is recomputed yet. -/
theorem perform_at {s : Store} {i : GoalId} (hs : Steady cfg.maxCapabilityAttempts s) (result : AttemptResult) :
    Triple (fun w : World σ => w.store = s) (perform (s.recordAttempt (result.toAttempt i)))
      (fun _ w => TouchedAt cfg.maxCapabilityAttempts s w.store i ∧ i < w.store.goals.length) (Good cfg) := by
  cases hr : s.recordAttempt (result.toAttempt i) with
  | error e =>
    refine Triple.raise fun w hw => ?_
    rw [Good, hw]
    exact hs
  | ok t =>
    have ht := touched_recordAttempt (n := cfg.maxCapabilityAttempts) hr
    obtain ⟨hgoals, _, _, hi⟩ := Store.recordAttempt_spec hr
    refine commit_spec fun w hw => ⟨ht, ?_⟩
    rw [hgoals]
    exact hi

theorem propagateFrom_recomputes {s : Store} {i : GoalId} (hs : Steady cfg.maxCapabilityAttempts s) :
    Triple (fun w : World σ => TouchedAt cfg.maxCapabilityAttempts s w.store i ∧ i < w.store.goals.length)
      (propagateFrom env cfg i) (fun _ => Good cfg) (Good cfg) := by
  intro w hw
  exact ((propagateFrom_settles hs hw.1 hw.2).conseq (fun _ => id) (fun _ _ h => h.1) fun _ h => h.elim) w rfl

theorem recoverOne_settles (g : Goal) :
    Triple (Good (σ := σ) cfg) (recoverOne env cfg g) (fun _ => Good cfg) (Good cfg) := by
  intro w hgood
  have hrun : Triple (fun v : World σ => v.store = w.store) (recoverOne env cfg g) (fun _ => Good cfg) (Good cfg) := by
    unfold recoverOne
    refine Triple.bind read_at fun s => Triple.assume fun hs => ?_
    rw [hs]
    refine Triple.bind (perform_at hgood _) fun _ => ?_
    refine Triple.bind read_spec fun t => ?_
    refine Triple.bind (commit_spec (Q := fun _ v => TouchedAt cfg.maxCapabilityAttempts w.store v.store g.id ∧
      g.id < v.store.goals.length) fun v hv => ?_) fun _ => propagateFrom_recomputes hgood
    obtain ⟨⟨htouched, hi⟩, rfl⟩ := hv
    exact ⟨htouched.trans (Alike.setLease.touched g.id), by simpa [Store.forceRelease, Store.setLease] using hi⟩
  exact hrun w rfl

theorem recoverStale_settles (now : ℚ) :
    Triple (Good (σ := σ) cfg) (recoverStale env cfg now) (fun _ => Good cfg) (Good cfg) := by
  unfold recoverStale
  refine Triple.bind read_spec fun s => ?_
  refine Triple.bind (Q := fun _ => Good cfg) ?_ fun _ => Triple.pure fun _ => id
  exact (Triple.forEach (fun _ => Good cfg) (fun g _ => recoverOne_settles g) _).weaken fun w hw => hw.1

theorem recover_settles (now : Option ℚ) :
    Triple (fun w : World σ => Good cfg w ∧ QuietEach env cfg w.store.proposedDecompositions w)
      (recover env cfg now) (fun _ => Good cfg) (Good cfg) := by
  unfold recover
  refine Triple.bind revalidateProposed_settles fun _ => ?_
  cases now with
  | some t => exact recoverStale_settles t
  | none => exact Triple.bind (ask_spec fun w e hw => hw) recoverStale_settles

theorem claimNext_settles (n : ℕ) (candidates : List Goal) :
    Triple (Good (σ := σ) cfg) (claimNext env cfg n candidates) (fun _ => Good cfg) (Good cfg) := by
  induction n generalizing candidates with
  | zero => exact Triple.pure fun _ => id
  | succ n ih =>
    unfold claimNext
    split
    · exact Triple.pure fun _ => id
    · refine Triple.bind (ask_spec fun w e hw => hw) fun now => ?_
      refine Triple.bind read_spec fun s => ?_
      refine Triple.bind (commit_alike fun w hw => ⟨hw.1, hw.2 ▸ Alike.claim⟩) fun _ => ?_
      split
      · exact Triple.pure fun _ => id
      · exact ih _

theorem noteDir_settles (i : GoalId) (dir : Option Text) :
    Triple (Good (σ := σ) cfg) (noteDir i dir) (fun _ => Good cfg) (Good cfg) := by
  cases dir with
  | none => exact Triple.pure fun _ h => h
  | some dir =>
    unfold noteDir
    refine Triple.bind read_spec fun s => commit_alike fun w hw => ⟨hw.1, hw.2 ▸ ?_⟩
    exact Alike.updateGoal _ _ fun _ => rfl

theorem judge_settles (root : GoalId) (goal : Goal) (p : Progress) (result : AttemptResult) :
    Triple (fun w : World σ => Good cfg w ∧ QuietJudge env cfg goal result w)
      (judge env cfg root goal p result) (fun _ => Good cfg) (Good cfg) := by
  intro w hw
  obtain ⟨hgood, hquiet⟩ := hw
  have hrun : Triple (fun v : World σ => v.store = w.store ∧ QuietJudge env cfg goal result v)
      (judge env cfg root goal p result) (fun _ => Good cfg) (Good cfg) := by
    unfold judge QuietJudge
    refine Triple.bind_then read_at fun s => ?_
    refine (Triple.assume fun hs => ?_).weaken fun v hv => and_assoc.mp hv
    rw [hs]
    refine Triple.bind_then (perform_at hgood result) fun _ => ?_
    refine Triple.bind_then (propagateFrom_recomputes hgood) fun _ => ?_
    have decomposed : ∀ q, result.outcome ∉ noVerdictOutcomes → result.outcome ≠ .proved →
        Triple (fun v : World σ => Good cfg v ∧
          (result.outcome ∉ noVerdictOutcomes → result.outcome ≠ .proved → QuietDecompose env goal v))
        (do let p ← decomposeAndRescope env cfg root goal q; pure (Next.again p)) (fun _ => Good cfg) (Good cfg) := by
      intro q hverdict hfailed
      refine Triple.bind ((decomposeAndRescope_settles root goal q).weaken fun v hv => ?_) fun _ =>
        Triple.pure fun _ => id
      exact ⟨hv.1, hv.2 hverdict hfailed⟩
    dsimp only
    split
    · split
      · split <;> exact Triple.pure fun v hv => hv.1
      · split <;> exact Triple.pure fun v hv => hv.1
    · next hverdict =>
      split
      · exact Triple.pure fun v hv => hv.1
      · next hfailed => exact decomposed _ hverdict hfailed
  exact hrun w ⟨rfl, hquiet⟩

theorem attackOnce_settles (root : GoalId) (goal : Goal) (budget : ℚ) (p : Progress) :
    Triple (fun w : World σ => Good cfg w ∧ QuietAttack env cfg goal budget w)
      (attackOnce env cfg root goal budget p) (fun _ => Good cfg) (Good cfg) := by
  unfold attackOnce QuietAttack
  refine Triple.bind_then (Q := fun _ => Good cfg) (ask_spec fun w e hw => hw) fun answer => ?_
  refine Triple.bind_then (noteDir_settles goal.id answer.1) fun _ => ?_
  cases hanswer : answer.2 with
  | error message => exact Triple.raise fun w hw => hw.1
  | ok result => exact (judge_settles root goal p result).weaken fun w hw => ⟨hw.1, hw.2 result rfl⟩

theorem workOn_settles (root : GoalId) (goal : Goal) (budget : ℚ) (p : Progress) :
    Triple (fun w : World σ => Good cfg w ∧ QuietWork env cfg root goal budget p w)
      (workOn env cfg root goal budget p) (fun _ => Good cfg) (Good cfg) := by
  unfold workOn
  refine Triple.bind read_spec fun s => ?_
  by_cases hfirst : cfg.decomposeRootFirst = true ∧ goal.id = root ∧ s.decompositionsOf goal.id = []
  · rw [if_pos hfirst]
    refine Triple.weaken (Triple.bind_then (C := fun q w => p.counted.accepted < q.counted.accepted ∨
      QuietAttack env cfg goal budget w) (decomposeAndRescope_settles root goal p) fun q => ?_) fun w hw => ?_
    · by_cases hmore : p.counted.accepted < q.counted.accepted
      · rw [if_pos hmore]
        exact Triple.pure fun w hw => hw.1
      · rw [if_neg hmore]
        exact (attackOnce_settles root goal budget q).weaken fun w hw => ⟨hw.1, hw.2.resolve_left hmore⟩
    · obtain ⟨⟨hgood, hquiet⟩, rfl⟩ := hw
      unfold QuietWork at hquiet
      rw [if_pos hfirst] at hquiet
      exact ⟨⟨hgood, hquiet.1⟩, hquiet.2⟩
  · rw [if_neg hfirst]
    refine (attackOnce_settles root goal budget p).weaken fun w hw => ?_
    obtain ⟨⟨hgood, hquiet⟩, rfl⟩ := hw
    unfold QuietWork at hquiet
    rw [if_neg hfirst] at hquiet
    exact ⟨hgood, hquiet⟩

theorem releaseLease_settles (i : GoalId) :
    Triple (Good (σ := σ) cfg) (releaseLease cfg i) (fun _ => Good cfg) (Good cfg) := by
  unfold releaseLease
  exact Triple.bind read_spec fun s => commit_alike fun w hw => ⟨hw.1, hw.2 ▸ Alike.release⟩

theorem claimAndWork_settles (root : GoalId) (budget : ℚ) (candidates : List Goal) (p : Progress) :
    Triple (fun w : World σ => Good cfg w ∧ (claimNext env cfg candidates.length candidates).Then
        (fun claimed v => ∀ goal, claimed = some goal →
          QuietWork env cfg root goal budget { p with iterations := p.iterations + 1 } v) w)
      (claimAndWork env cfg root budget candidates p) (fun _ => Good cfg) (Good cfg) := by
  unfold claimAndWork
  refine Triple.bind_then (claimNext_settles _ _) fun claimed => ?_
  cases claimed with
  | none => exact Triple.pure fun w hw => hw.1
  | some goal =>
    refine Triple.ensure ((workOn_settles root goal budget _).weaken fun w hw => ⟨hw.1, hw.2 goal rfl⟩)
      (fun _ => releaseLease_settles _) (releaseLease_settles _)

theorem solvePass_settles (root : GoalId) (budget : ℚ) (p : Progress) :
    Triple (fun w : World σ => Good cfg w ∧ QuietPass env cfg root budget p w)
      (solvePass env cfg root budget p) (fun _ => Good cfg) (Good cfg) := by
  unfold solvePass
  refine Triple.bind read_spec fun s => ?_
  refine Triple.bind (lookup_spec fun w hw => hw.1.1) fun rootGoal => ?_
  split
  · exact Triple.pure fun w hw => hw.1.1.1
  · next hopen =>
    split
    · exact Triple.pure fun w hw => hw.1.1.1
    · next hafford =>
      split
      · exact Triple.pure fun w hw => hw.1.1.1
      · refine (claimAndWork_settles root _ _ p).weaken fun w hw => ?_
        obtain ⟨⟨⟨hgood, hquiet⟩, rfl⟩, hroot⟩ := hw
        refine ⟨hgood, hquiet ?_ (not_le.mp hafford)⟩
        unfold Store.statusOf
        rw [hroot]
        exact hopen

theorem upsertGoal_settles (identity statement : Text) :
    Triple (Good (σ := σ) cfg) (upsertGoal identity statement) (fun _ => Good cfg) (Good cfg) := by
  unfold upsertGoal
  refine Triple.bind read_spec fun s => ?_
  refine Triple.bind (commit_alike fun w hw => ⟨hw.1, hw.2 ▸ Alike.of_grows (.insertGoal _ _ _)⟩) fun _ => ?_
  exact Triple.bind read_spec fun t => Triple.pure fun w hw => hw.1

theorem Store.noStale_iff {n : ℤ} {s : Store} : s.NoStale n ↔ ∀ j, s.SettledAt n j := by
  constructor
  · intro h j
    refine ⟨?_, fun hw => ?_⟩
    · cases hg : s.goal j with
      | some g =>
        simp only [Store.statusOf, hg, Option.map_some, Option.getD_some]
        exact h.1 j g hg
      | none =>
        have hnone : s.derived n j = .opened := by
          have hlt : ¬ j < s.goals.length := fun hlt => by
            obtain ⟨g, hg'⟩ := Store.exists_goal hlt
            rw [hg] at hg'
            simp at hg'
          have hattempts : s.attemptsOf j = [] := by
            unfold Store.attemptsOf
            rw [List.filter_eq_nil_iff]
            intro a ha heq
            exact hlt (of_decide_eq_true heq ▸ s.attempt_goal a ha)
          have hdecs : s.decompositionsOf j = [] := by
            unfold Store.decompositionsOf
            rw [List.filter_eq_nil_iff]
            intro d hd heq
            exact hlt (of_decide_eq_true heq ▸ Store.decomposition_goal_lt hd)
          have hn : ¬ (0 < n ∧ n ≤ 0) := by omega
          simp [Store.derived, hattempts, hdecs, goalStatusFrom, hn]
        simp [Store.statusOf, hg, hnone]
    · obtain ⟨d, hd, _, hacc, hproved⟩ := hw
      exact h.2 d hd hacc hproved
  · intro h
    refine ⟨fun i g hg => ?_, fun d hd hacc hproved => ?_⟩
    · have hst := (h i).status
      simpa only [Store.statusOf, hg, Option.map_some, Option.getD_some] using hst
    · exact (h d.goalId).waiting ⟨d, hd, rfl, hacc, hproved⟩

def Operation.step (env : Env σ) (cfg : Config) (w : World σ) (o : Operation) : Option (World σ) := some (o.exec env cfg w)

theorem Good.of_triple {α : Type} {m : Ctl σ α} {P : World σ → Prop}
    (h : Triple P m (fun _ => Good cfg) (Good cfg)) {w : World σ} (hw : P w) : Good cfg (m w).2 := by
  have := h w hw
  cases hm : m w with
  | mk r w' =>
    rw [hm] at this
    cases r <;> exact this

theorem good_exec {w : World σ} {o : Operation} (hw : Good cfg w) (hq : o.Quiet env cfg w) :
    Good cfg (o.exec env cfg w) := by
  cases o with
  | upsertGoal i t => exact Good.of_triple (upsertGoal_settles i t) hw
  | recordDecomposition g k => exact Good.of_triple (recordDecomposition_settles g k) ⟨hw, hq⟩
  | revalidateProposed => exact Good.of_triple revalidateProposed_settles ⟨hw, hq⟩
  | recover now => exact Good.of_triple (recover_settles now) ⟨hw, hq⟩
  | iterate r b p => exact Good.of_triple (solvePass_settles r b p) ⟨hw, hq⟩

/-- An environment that always reaches a verdict, over rows that all have their sketch. -/
theorem quiet_of_verdicts {w : World σ} (o : Operation)
    (hverdict : ∀ g k e x, (env.validateSketch g k e).1 ≠ .error x)
    (hrows : ∀ d ∈ w.store.decompositions, d.sketch ≠ none) : o.Quiet env cfg w := by
  have hrecord : ∀ g k v, QuietRecord env g k v := fun g k v _ e _ he => absurd he (hverdict g k v.env e)
  have hdecompose : ∀ g v, QuietDecompose env g v := fun g v _ _ _ sketch _ => hrecord g sketch _
  have hjudge : ∀ g r v, QuietJudge env cfg g r v := fun g r v _ _ _ _ _ _ _ u _ _ _ => hdecompose g u
  have hattack : ∀ g b v, QuietAttack env cfg g b v := fun g b v _ _ _ _ u _ r _ => hjudge g r u
  have hwork : ∀ r g b p v, QuietWork env cfg r g b p v := by
    intro r g b p v
    unfold QuietWork
    split
    · exact ⟨hdecompose g v, fun q u _ => Or.inr (hattack g b u)⟩
    · exact hattack g b v
  have heach : ∀ ds v, (∀ d ∈ ds, d.sketch ≠ none) → QuietEach env cfg ds v := by
    intro ds
    induction ds with
    | nil => exact fun v _ => trivial
    | cons d ds ih =>
      intro v hds
      refine ⟨fun hnone => absurd hnone (hds d (List.mem_cons_self ..)), fun _ u _ => ih u fun e he => ?_⟩
      exact hds e (List.mem_cons_of_mem d he)
  have hproposed : QuietEach env cfg w.store.proposedDecompositions w :=
    heach _ w fun d hd => hrows d (List.mem_filter.mp hd).1
  cases o with
  | upsertGoal i t => exact trivial
  | recordDecomposition g k => exact hrecord g k w
  | revalidateProposed => exact hproposed
  | recover now => exact hproposed
  | iterate r b p => exact fun _ _ _ v _ goal _ => hwork r goal _ _ v

/-- A run of quiet operations leaves no stale status, whatever the environment answers. -/
theorem noStale_of_quiet (env : Env σ) (cfg : Config) {w : World σ} {os : List Operation}
    (hs : w.store.NoStale cfg.maxCapabilityAttempts) (hwide : w.store.Wide)
    (hq : Meets (Operation.step env cfg) (fun v o => o.Quiet env cfg v) w os) :
    Everywhere (Operation.step env cfg) (fun v => v.store.NoStale cfg.maxCapabilityAttempts) w os := by
  have hgood : Good cfg w := ⟨Store.noStale_iff.mp hs, hwide⟩
  refine (everywhere_of_meets (I := Good cfg) (fun v o t hv ho ht => ?_) hgood hq).mono fun v hv =>
    Store.noStale_iff.mpr hv.settled
  obtain rfl := Option.some.inj ht
  exact good_exec hv ho

def leafOperations : List Operation :=
  [.upsertGoal "root".toList "theorem root : P".toList, .iterate 0 1 { scope := [0] },
    .iterate 0 1 { scope := [0, 1] }, .recover (some 0)]

theorem noStale_of_quiet_leaf :
    Everywhere (Operation.step leafEnv { owner := "w".toList }) (fun v => v.store.NoStale 3)
      (World.fresh ()) leafOperations := by
  refine noStale_of_quiet leafEnv { owner := "w".toList } ⟨fun i g hg => ?_, fun d hd => ?_⟩ (fun d hd => ?_) ?_
  · simp [World.fresh, Store.empty, Store.goal] at hg
  · simp [World.fresh, Store.empty] at hd
  · simp [World.fresh, Store.empty] at hd
  · have hverdict : ∀ g k e x, (leafEnv.validateSketch g k e).1 ≠ .error x := fun _ _ _ _ => by simp [leafEnv]
    refine fun _ h₁ => ⟨quiet_of_verdicts _ hverdict (by decide), ?_⟩
    obtain rfl := Option.some.inj h₁
    refine fun _ h₂ => ⟨quiet_of_verdicts _ hverdict (by decide), ?_⟩
    obtain rfl := Option.some.inj h₂
    refine fun _ h₃ => ⟨quiet_of_verdicts _ hverdict (by decide), ?_⟩
    obtain rfl := Option.some.inj h₃
    exact fun _ h₄ => ⟨quiet_of_verdicts _ hverdict (by decide +kernel), trivial⟩

def offlineEnv : Env Unit :=
  { leafEnv with
    attack := fun _ _ e => ((none, .ok noProof), e)
    validateSketch := fun _ _ e => (.error "lean is not on PATH".toList, e) }

/-- One attempt is allowed, it fails, and the proposal that follows waits for its verdict:
the goal stays EXHAUSTED. -/
theorem deferred_stays_exhausted :
    ¬ Everywhere (Operation.step offlineEnv { owner := "w".toList, maxCapabilityAttempts := 1 })
      (fun v => v.store.NoStale 1) (World.fresh ())
      [.upsertGoal "root".toList "theorem root : P".toList, .iterate 0 1 { scope := [0] }] := by
  intro h
  have hlast := (h.2 _ rfl).2 _ rfl
  have hnow := everywhere_first hlast
  have hroot := (Store.noStale_iff.mp hnow 0).status
  revert hroot
  decide

end EvoHarness.Proof
