import EvoHarness.Justified

/-! The controller's control flow meets the transactions' conditions, so every state
it ever commits is sound. -/
namespace EvoHarness.Proof
open PyText Hoare

variable {σ : Type} {W : Sketch → Prop}

def Inv (W : Sketch → Prop) (w : World σ) : Prop := Sound W w.toSnapshot ∧ ∀ p ∈ w.history, Sound W p

theorem Inv.commit {w : World σ} (h : Inv W w) {s : Store} (hs : Sound W ⟨s, w.validated⟩) :
    Inv W { w with store := s, history := ⟨s, w.validated⟩ :: w.history } := by
  refine ⟨hs, fun p hp => ?_⟩
  rcases List.mem_cons.mp hp with rfl | hp
  · exact hs
  · exact h.2 p hp

/-- What `advance` leaves when it has gone through `ds` from the store `s`. -/
structure AdvancedTo (s : Store) (ds : List DecompositionRow) (statuses : List DecompositionStatus)
    (t : Store) : Prop where
  advances : Advances s t
  goals : t.goals = s.goals
  others : ∀ k, k ∉ ds.map (·.id) → t.decomposition k = s.decomposition k
  statuses : statuses = ds.map fun d => ((t.decomposition d.id).map (·.status)).getD .proposed

theorem statusOf_proved {s : Store} {i : GoalId} (h : s.statusOf i = .proved) : s.Proved i := by
  unfold Store.statusOf at h
  cases hg : s.goal i with
  | none => simp [hg] at h
  | some g => exact ⟨g, hg, by simpa [hg] using h⟩

theorem moved_status {d : DecompositionRow} {s : Store}
    (h : decompositionStatusFrom d.status (d.subgoalIds.map s.statusOf) ≠ d.status) :
    d.status = .accepted ∧ (∀ i ∈ d.subgoalIds, s.Proved i) ∧
      decompositionStatusFrom d.status (d.subgoalIds.map s.statusOf) = .completed := by
  rw [decompositionStatusFrom_eq] at h ⊢
  split at h
  · next hc =>
    rw [if_pos hc]
    refine ⟨hc.1, fun i hi => ?_, rfl⟩
    exact statusOf_proved (hc.2.2 _ (List.mem_map_of_mem hi))
  · exact absurd rfl h

theorem advance_spec (ds : List DecompositionRow) (hnd : (ds.map (·.id)).Nodup) (s : Store)
    (hds : ∀ d ∈ ds, s.decomposition d.id = some d) :
    Triple (fun w : World σ => Inv W w ∧ w.store = s) (advance ds)
      (fun statuses w => Inv W w ∧ AdvancedTo s ds statuses w.store) (Inv W) := by
  induction ds generalizing s with
  | nil =>
    unfold advance
    refine Triple.pure fun w hw => ⟨hw.1, ?_⟩
    rw [hw.2]
    exact ⟨.refl s, rfl, fun _ _ => rfl, rfl⟩
  | cons d ds ih =>
    have hd := hds d (List.mem_cons_self ..)
    simp only [List.map_cons, List.nodup_cons] at hnd
    unfold advance
    refine Triple.bind read_spec fun s₁ => ?_
    -- what the rest of the loop does, from whatever the head left
    have rest : ∀ t, Advances s t → t.goals = s.goals →
        (∀ k, k ≠ d.id → t.decomposition k = s.decomposition k) →
        Triple (fun w : World σ => Inv W w ∧ w.store = t)
          (do
            let later ← advance ds
            pure (((t.decomposition d.id).map (·.status)).getD .proposed :: later))
          (fun statuses w => Inv W w ∧ AdvancedTo s (d :: ds) statuses w.store) (Inv W) := by
      intro t hadv hgoals hother
      have htail : ∀ e ∈ ds, t.decomposition e.id = some e := by
        intro e he
        have hne : e.id ≠ d.id := fun h => hnd.1 (h ▸ List.mem_map_of_mem he)
        rw [hother e.id hne]
        exact hds e (List.mem_cons_of_mem d he)
      refine Triple.bind (ih hnd.2 t htail) fun later => Triple.pure fun w hw => ⟨hw.1, ?_⟩
      obtain ⟨hinv, hto⟩ := hw
      refine ⟨hadv.trans hto.advances, hto.goals.trans hgoals, ?_, ?_⟩
      · intro k hk
        simp only [List.map_cons, List.mem_cons, not_or] at hk
        rw [hto.others k hk.2, hother k hk.1]
      · rw [List.map_cons, hto.others d.id hnd.1, ← hto.statuses]
    by_cases hmove : decompositionStatusFrom d.status (d.subgoalIds.map s₁.statusOf) = d.status
    · simp only [hmove, ne_eq, not_true, if_false]
      have h := rest s (.refl s) rfl fun _ _ => rfl
      rw [hd] at h
      exact h.weaken fun w hw => hw.1
    · obtain ⟨hacc, hsub, hcomp⟩ := moved_status hmove
      simp only [hcomp] at hmove ⊢
      rw [if_pos hmove]
      let t := s.setDecompositionStatus d.id .completed
      have htd : t.decomposition d.id = some (d.withStatus .completed []) := by
        rw [Store.decomposition_setDecompositionStatus, if_pos rfl, hd, Option.map_some]
      refine Triple.bind (Q := fun _ w => Inv W w ∧ w.store = t) (commit_spec ?_) fun _ => ?_
      · rintro w ⟨⟨hinv, rfl⟩, rfl⟩
        refine ⟨hinv.commit ?_, rfl⟩
        have hmem := List.mem_of_getElem? hd
        refine hinv.1.setDecompositionStatus [] ?_ ?_ ?_
        · intro e he
          rw [← Option.some.inj (hd.symm.trans he), hacc]
          simp
        · exact fun _ => hinv.1.checked d hmem (Or.inl hacc)
        · intro _ e he i hi
          rw [← Option.some.inj (hd.symm.trans he)] at hi
          exact hsub i hi
      · have h := rest t (.complete hd hacc []) rfl fun k hk => by
          rw [Store.decomposition_setDecompositionStatus, if_neg (Ne.symm hk)]
        rw [htd] at h
        exact h

theorem nodup_ids_decompositionsOf (s : Store) (i : GoalId) :
    ((s.decompositionsOf i).map (·.id)).Nodup := by
  refine List.Nodup.sublist (List.Sublist.map _ List.filter_sublist) ?_
  rw [s.decomposition_ids]
  exact List.nodup_range

theorem mem_decompositionsOf {s : Store} {i : GoalId} {d : DecompositionRow} :
    d ∈ s.decompositionsOf i ↔ d ∈ s.decompositions ∧ d.goalId = i := by
  simp [Store.decompositionsOf]

/-- After `advance`, COMPLETED is among the statuses exactly when a route is completed. -/
theorem AdvancedTo.completed_iff {s t : Store} {i : GoalId} {statuses : List DecompositionStatus}
    (h : AdvancedTo s (s.decompositionsOf i) statuses t) :
    .completed ∈ statuses ↔ ∃ d ∈ t.decompositions, d.goalId = i ∧ d.status = .completed := by
  rw [h.statuses]
  simp only [List.mem_map]
  constructor
  · rintro ⟨d, hd, hst⟩
    obtain ⟨hmem, hgoal⟩ := mem_decompositionsOf.mp hd
    obtain ⟨e, he, heg, _⟩ := h.advances.row (Store.mem_decompositions_iff.mp hmem)
    rw [he] at hst
    exact ⟨e, List.mem_of_getElem? he, heg.trans hgoal, hst⟩
  · rintro ⟨e, he, rfl, hst⟩
    have hrow := Store.mem_decompositions_iff.mp he
    obtain ⟨d, hd, hg, _⟩ := h.advances.row_back hrow
    have hid := Store.decomposition_id hd
    refine ⟨d, mem_decompositionsOf.mpr ⟨List.mem_of_getElem? hd, hg.symm⟩, ?_⟩
    rw [hid, hrow]
    exact hst

variable {maxAttempts : ℤ} {budgetSpent : ℚ} {level : Text} {env : Env σ} {cfg : Config}

theorem visit_spec (i : GoalId) (s₀ : Store) :
    Triple (fun w : World σ => Inv W w ∧ Advances s₀ w.store) (visit maxAttempts budgetSpent level i)
      (fun _ w => Inv W w ∧ Advances s₀ w.store) (Inv W) := by
  unfold visit
  refine Triple.bind read_spec fun s => ?_
  refine Triple.bind (lookup_spec fun w hw => hw.1.1) fun current => ?_
  have hds : ∀ d ∈ s.decompositionsOf i, s.decomposition d.id = some d := fun d hd =>
    Store.mem_decompositions_iff.mp (mem_decompositionsOf.mp hd).1
  refine Triple.bind (Q := fun statuses w => (Inv W w ∧ AdvancedTo s (s.decompositionsOf i) statuses w.store)
    ∧ Advances s₀ s ∧ s.goal i = some current) ?_ fun statuses => ?_
  · rintro w ⟨⟨⟨hinv, hadv⟩, rfl⟩, hcur⟩
    have h := advance_spec _ (nodup_ids_decompositionsOf w.store i) w.store hds w ⟨hinv, rfl⟩
    cases hm : advance (w.store.decompositionsOf i) w with
    | mk r w' =>
      rw [hm] at h
      cases r with
      | ok a => exact ⟨h, hadv, hcur⟩
      | error e => exact h
  · by_cases hst : goalStatusFrom ((s.attemptsOf i).map (·.outcome)) statuses maxAttempts = current.status
    · simp only [hst, if_true]
      exact Triple.pure fun w hw => ⟨hw.1.1, hw.2.1.trans hw.1.2.advances⟩
    · simp only [hst, if_false]
      refine Triple.bind read_spec fun t => ?_
      -- both branches write the recomputed status; only the context differs
      have write : ∀ b v, Triple
          (fun w : World σ => ((Inv W w ∧ AdvancedTo s (s.decompositionsOf i) statuses w.store)
            ∧ Advances s₀ s ∧ s.goal i = some current) ∧ w.store = t)
          (commit (t.setGoalStatus i
            (goalStatusFrom ((s.attemptsOf i).map (·.outcome)) statuses maxAttempts) b v))
          (fun _ w => Inv W w ∧ Advances s₀ w.store) (Inv W) := by
        intro b v
        refine commit_spec ?_
        rintro w ⟨⟨⟨hinv, hto⟩, hadv, hcur⟩, rfl⟩
        refine ⟨hinv.commit (hinv.1.setGoalStatus b v ?_ ?_), hadv.trans (hto.advances.trans (.setGoalStatus ..))⟩
        · intro hp
          rw [goalStatusFrom_proved_iff]
          rcases hinv.1.grounded i hp with ⟨a, ha, hg, ho⟩ | hroute
          · rw [hto.advances.attempts] at ha
            exact Or.inl (List.mem_map.mpr ⟨a, by simp [Store.attemptsOf, ha, hg], ho⟩)
          · exact Or.inr (hto.completed_iff.mpr hroute)
        · intro hp
          rcases goalStatusFrom_proved_iff.mp hp with ho | hc
          · obtain ⟨a, ha, ho⟩ := List.mem_map.mp ho
            simp only [Store.attemptsOf, List.mem_filter, decide_eq_true_eq] at ha
            refine Or.inl ⟨a, ?_, ha.2, ho⟩
            rw [hto.advances.attempts]
            exact ha.1
          · exact Or.inr (hto.completed_iff.mp hc)
      split
      · exact Triple.bind (write _ _) fun _ => Triple.pure fun w hw => hw
      · exact Triple.bind (write _ _) fun _ => Triple.pure fun w hw => hw

theorem propagateLoop_spec (s₀ : Store) (n : ℕ) (pending : List GoalId) :
    Triple (fun w : World σ => Inv W w ∧ Advances s₀ w.store)
      (propagateLoop maxAttempts budgetSpent level n pending)
      (fun _ w => Inv W w ∧ Advances s₀ w.store) (Inv W) := by
  induction n generalizing pending with
  | zero => exact Triple.pure fun w hw => hw
  | succ n ih =>
    cases pending with
    | nil => exact Triple.pure fun w hw => hw
    | cons i pending => exact Triple.bind (visit_spec i s₀) fun parents => ih _

theorem propagate_spec (i : GoalId) (s₀ : Store) :
    Triple (fun w : World σ => Inv W w ∧ Advances s₀ w.store)
      (propagate maxAttempts budgetSpent level i)
      (fun _ w => Inv W w ∧ Advances s₀ w.store) (Inv W) := by
  unfold propagate
  refine Triple.bind read_spec fun s => ?_
  refine Triple.bind ((propagateLoop_spec s₀ _ _).weaken fun w hw => hw.1) fun _ => ?_
  exact Triple.pure fun w hw => hw

theorem propagateFrom_spec (i : GoalId) (s₀ : Store) :
    Triple (fun w : World σ => Inv W w ∧ Advances s₀ w.store) (propagateFrom env cfg i)
      (fun _ w => Inv W w ∧ Advances s₀ w.store) (Inv W) := by
  unfold propagateFrom
  refine Triple.bind read_spec fun s => ?_
  exact (propagate_spec i s₀).weaken fun w hw => hw.1

def Pending (ids : List DecompositionId) (s : Store) : Prop :=
  ∀ k ∈ ids, ∃ d, s.decomposition k = some d ∧ d.status = .proposed

theorem Pending.advances {ids : List DecompositionId} {s t : Store} (h : Pending ids s)
    (ha : Advances s t) : Pending ids t := by
  intro k hk
  obtain ⟨d, hd, hp⟩ := h k hk
  obtain ⟨e, he, _, _, _, hst⟩ := ha.row hd
  refine ⟨e, he, ?_⟩
  rcases hst with hst | ⟨hacc, _⟩
  · exact hst.trans hp
  · simp [hp] at hacc

theorem Pending.setOther {ids : List DecompositionId} {s : Store} {k : DecompositionId}
    (h : Pending (k :: ids) s) (hk : k ∉ ids) (st : DecompositionStatus) (r : Text) :
    Pending ids (s.setDecompositionStatus k st r) := by
  intro l hl
  have hne : k ≠ l := fun h => hk (h ▸ hl)
  rw [Store.decomposition_setDecompositionStatus, if_neg hne]
  exact h l (List.mem_cons_of_mem k hl)

theorem Sound.verdict {s : Store} {v : List DecompositionId} (h : Sound W ⟨s, v⟩)
    {k : DecompositionId} {ids : List DecompositionId} (hp : Pending (k :: ids) s)
    {st : DecompositionStatus} (hst : st ≠ .completed) (hacc : st = .accepted → k ∈ v) (r : Text) :
    Sound W ⟨s.setDecompositionStatus k st r, v⟩ := by
  refine h.setDecompositionStatus r ?_ ?_ ?_
  · intro d hd
    obtain ⟨e, he, hpe⟩ := hp k (List.mem_cons_self ..)
    rw [Option.some.inj (hd.symm.trans he), hpe]
    simp
  · rintro (h | h)
    · exact hacc h
    · exact absurd h hst
  · exact fun h => absurd h hst

theorem writeVerdict_spec {goalId : GoalId} {k : DecompositionId} {ids : List DecompositionId}
    (hk : k ∉ ids) (v : Validation) :
    Triple (fun w : World σ => (Inv W w ∧ Pending (k :: ids) w.store) ∧ (v.ok = true → k ∈ w.validated))
      (writeVerdict env cfg goalId k v) (fun _ w => Inv W w ∧ Pending ids w.store) (Inv W) := by
  unfold writeVerdict
  refine Triple.bind read_spec fun s => ?_
  let t := s.setDecompositionStatus k (verdictStatus v) v.reason
  refine Triple.bind (Q := fun _ w => (Inv W w ∧ Advances t w.store) ∧ Pending ids t)
    (commit_spec ?_) fun _ => ?_
  · rintro w ⟨⟨⟨hinv, hpend⟩, hval⟩, rfl⟩
    refine ⟨⟨hinv.commit (hinv.1.verdict hpend ?_ ?_ _), .refl _⟩, hpend.setOther hk _ _⟩
    · unfold verdictStatus
      split <;> simp
    · intro hacc
      refine hval ?_
      unfold verdictStatus at hacc
      split at hacc
      · next hok => exact hok
      · simp at hacc
  · by_cases hpend : Pending ids t
    · exact (propagateFrom_spec goalId t).conseq (fun w hw => hw.1)
        (fun _ w hw => ⟨hw.1, hpend.advances hw.2⟩) fun _ => id
    · exact fun w hw => absurd hw.2 hpend

theorem settle_spec {goalId : GoalId} {k : DecompositionId} {ids : List DecompositionId}
    (hk : k ∉ ids) (v : Validation) :
    Triple (fun w : World σ => Inv W w ∧ Pending (k :: ids) w.store) (settle env cfg goalId k v)
      (fun _ w => Inv W w ∧ Pending ids w.store) (Inv W) := by
  unfold settle
  split
  · refine Triple.bind (Triple.modify ?_) fun _ =>
      Triple.bind (writeVerdict_spec hk v) fun _ => Triple.pure fun _ => id
    rintro w ⟨hinv, hpend⟩
    refine ⟨⟨⟨?_, hinv.2⟩, hpend⟩, fun _ => List.mem_cons_self ..⟩
    exact hinv.1.mono fun j hj => List.mem_cons_of_mem k hj
  · next hno =>
    refine Triple.bind (Triple.weaken (writeVerdict_spec hk v) fun w hw => ⟨hw, ?_⟩) fun _ =>
      Triple.pure fun _ => id
    exact fun hok => absurd hok hno

theorem Inv.answered {w : World σ} (h : Inv W w) (e : σ) : Inv W { w with env := e } := h

theorem pending_addDecomposition {s t : Store} {goalId : GoalId} {ps : List (Text × Text)}
    {k : Option Sketch} (ha : s.addDecomposition goalId ps k = .ok t) :
    Pending [s.decompositions.length] t := by
  unfold Store.addDecomposition at ha
  split at ha
  · obtain ⟨_, _, _, _, _, _, _, hdecs⟩ := Store.writeDecomposition_spec ha
    intro j hj
    rw [List.mem_singleton.mp hj]
    unfold Store.decomposition
    rw [hdecs]
    exact ⟨_, List.getElem?_concat_length, rfl⟩
  · simp at ha

/-- Every sketch the environment proposes is known to satisfy `W`. -/
def Env.Proposes (env : Env σ) (W : Sketch → Prop) : Prop :=
  ∀ g e k, (env.propose g e).1 = some k → W k

theorem recordDecomposition_spec (goal : Goal) {sketch : Sketch} (hk : W sketch) :
    Triple (Inv (σ := σ) W) (recordDecomposition env cfg goal sketch) (fun _ => Inv W) (Inv W) := by
  unfold recordDecomposition
  refine Triple.bind read_spec fun s => ?_
  split
  · exact Triple.pure fun w hw => hw.1
  · exact Triple.raise fun w hw => hw.1
  · next t ht =>
    refine Triple.bind (Q := fun _ w => Inv W w ∧ Pending [s.decompositions.length] w.store)
      (commit_spec ?_) fun _ => ?_
    · rintro w ⟨hinv, rfl⟩
      exact ⟨hinv.commit (hinv.1.addDecomposition ht (by simp) hk), pending_addDecomposition ht⟩
    · refine Triple.bind (ask_spec fun w e hw => ⟨hw.1.answered e, hw.2⟩) fun verdict => ?_
      cases verdict with
      | error e => exact Triple.pure fun w hw => hw.1
      | ok v =>
        exact (settle_spec (List.not_mem_nil) v).strengthen fun _ w hw => hw.1

theorem maybeDecompose_spec (hW : env.Proposes W) (goal : Goal) :
    Triple (Inv (σ := σ) W) (maybeDecompose env cfg goal) (fun _ => Inv W) (Inv W) := by
  unfold maybeDecompose
  refine Triple.bind (Q := fun k w => Inv W w ∧ ∀ sketch, k = some sketch → W sketch)
    (Triple.call fun w hw => ⟨hw.answered _, hW goal w.env⟩) fun proposed => ?_
  cases proposed with
  | none => exact Triple.pure fun w hw => hw.1
  | some sketch =>
    by_cases hk : W sketch
    · exact (recordDecomposition_spec goal hk).weaken fun w hw => hw.1
    · exact fun w hw => absurd (hw.2 sketch rfl) hk

theorem revalidateOne_spec (d : DecompositionRow) {ids : List DecompositionId} (hk : d.id ∉ ids) :
    Triple (fun w : World σ => Inv W w ∧ Pending (d.id :: ids) w.store) (revalidateOne env cfg d)
      (fun _ w => Inv W w ∧ Pending ids w.store) (Inv W) := by
  unfold revalidateOne
  split
  · refine Triple.bind read_spec fun s => ?_
    refine Triple.bind (Q := fun _ w => Inv W w ∧ Pending ids w.store) (commit_spec ?_) fun _ =>
      Triple.pure fun _ => id
    rintro w ⟨⟨hinv, hpend⟩, rfl⟩
    exact ⟨hinv.commit (hinv.1.verdict hpend (by simp) (by simp) _), hpend.setOther hk _ _⟩
  · refine Triple.bind read_spec fun s => ?_
    refine Triple.bind (lookup_spec fun w hw => hw.1.1) fun goal => ?_
    refine Triple.bind (ask_spec fun w e hw => ⟨⟨⟨hw.1.1.1.answered e, hw.1.1.2⟩, hw.1.2⟩, hw.2⟩)
      fun verdict => ?_
    cases verdict with
    | error e =>
      exact Triple.pure fun w hw => ⟨hw.1.1.1, fun k h => hw.1.1.2 k (List.mem_cons_of_mem _ h)⟩
    | ok v => exact (settle_spec hk v).weaken fun w hw => hw.1.1

theorem revalidateEach_spec (ds : List DecompositionRow) (hnd : (ds.map (·.id)).Nodup)
    (totals : DecompositionOutcome) :
    Triple (fun w : World σ => Inv W w ∧ Pending (ds.map (·.id)) w.store)
      (revalidateEach env cfg ds totals) (fun _ => Inv W) (Inv W) := by
  induction ds generalizing totals with
  | nil => exact Triple.pure fun w hw => hw.1
  | cons d ds ih =>
    obtain ⟨hd, hnd⟩ := List.nodup_cons.mp hnd
    exact Triple.bind (revalidateOne_spec d hd) fun one => ih hnd _

theorem pending_proposed (s : Store) : Pending (s.proposedDecompositions.map (·.id)) s := by
  intro k hk
  obtain ⟨d, hd, rfl⟩ := List.mem_map.mp hk
  simp only [Store.proposedDecompositions, List.mem_filter, decide_eq_true_eq] at hd
  exact ⟨d, Store.mem_decompositions_iff.mp hd.1, hd.2⟩

theorem revalidateProposed_spec :
    Triple (Inv (σ := σ) W) (revalidateProposed env cfg) (fun _ => Inv W) (Inv W) := by
  unfold revalidateProposed
  refine Triple.bind read_spec fun s => ?_
  have hnd : (s.proposedDecompositions.map (·.id)).Nodup := by
    refine List.Nodup.sublist (List.Sublist.map _ List.filter_sublist) ?_
    rw [s.decomposition_ids]
    exact List.nodup_range
  refine (revalidateEach_spec s.proposedDecompositions hnd {}).weaken ?_
  rintro w ⟨hinv, rfl⟩
  exact ⟨hinv, pending_proposed w.store⟩

theorem commit_keeps {s : Store} {P : World σ → Prop}
    (h : ∀ w, P w → Inv W w ∧ Sound W ⟨s, w.validated⟩) :
    Triple P (commit s) (fun _ => Inv W) (Inv W) :=
  commit_spec fun w hw => (h w hw).1.commit (h w hw).2

theorem record_keeps {s : Store} (r : AttemptResult) (i : GoalId) :
    Triple (fun w : World σ => Inv W w ∧ w.store = s) (perform (s.recordAttempt (r.toAttempt i)))
      (fun _ => Inv W) (Inv W) := by
  cases hr : s.recordAttempt (r.toAttempt i) with
  | error e => exact Triple.raise fun w hw => hw.1
  | ok t =>
    refine commit_keeps ?_
    rintro w ⟨hinv, rfl⟩
    exact ⟨hinv, hinv.1.recordAttempt hr r.proved_text⟩

theorem propagateFrom_keeps (i : GoalId) :
    Triple (Inv (σ := σ) W) (propagateFrom env cfg i) (fun _ => Inv W) (Inv W) :=
  fun w hw => ((propagateFrom_spec i w.store).strengthen fun _ _ h => h.1) w ⟨hw, .refl _⟩

theorem recoverOne_spec (g : Goal) :
    Triple (Inv (σ := σ) W) (recoverOne env cfg g) (fun _ => Inv W) (Inv W) := by
  unfold recoverOne
  refine Triple.bind read_spec fun s => ?_
  refine Triple.bind (record_keeps _ _) fun _ => ?_
  refine Triple.bind read_spec fun t => ?_
  refine Triple.bind (commit_keeps ?_) fun _ => propagateFrom_keeps g.id
  rintro w ⟨hinv, rfl⟩
  exact ⟨hinv, hinv.1.setLease ..⟩

theorem recoverStale_spec (now : ℚ) :
    Triple (Inv (σ := σ) W) (recoverStale env cfg now) (fun _ => Inv W) (Inv W) := by
  unfold recoverStale
  refine Triple.bind read_spec fun s => ?_
  refine Triple.bind (Q := fun _ => Inv W) ?_ fun _ => Triple.pure fun _ => id
  exact (Triple.forEach (fun _ => Inv W) (fun g _ => recoverOne_spec g) _).weaken fun w hw => hw.1

theorem recover_spec (now : Option ℚ) :
    Triple (Inv (σ := σ) W) (recover env cfg now) (fun _ => Inv W) (Inv W) := by
  unfold recover
  refine Triple.bind revalidateProposed_spec fun _ => ?_
  cases now with
  | some t => exact recoverStale_spec t
  | none => exact Triple.bind (ask_spec fun w e hw => hw.answered e) recoverStale_spec

theorem claimNext_spec (n : ℕ) (candidates : List Goal) :
    Triple (Inv (σ := σ) W) (claimNext env cfg n candidates) (fun _ => Inv W) (Inv W) := by
  induction n generalizing candidates with
  | zero => exact Triple.pure fun _ => id
  | succ n ih =>
    unfold claimNext
    split
    · exact Triple.pure fun _ => id
    · refine Triple.bind (ask_spec fun w e hw => hw.answered e) fun now => ?_
      refine Triple.bind read_spec fun s => ?_
      refine Triple.bind (commit_keeps ?_) fun _ => ?_
      · rintro w ⟨hinv, rfl⟩
        exact ⟨hinv, hinv.1.claim ..⟩
      · split
        · exact Triple.pure fun _ => id
        · exact ih _

theorem decomposeAndRescope_spec (hW : env.Proposes W) (root : GoalId) (goal : Goal) (p : Progress) :
    Triple (Inv (σ := σ) W) (decomposeAndRescope env cfg root goal p) (fun _ => Inv W) (Inv W) := by
  unfold decomposeAndRescope
  refine Triple.bind (maybeDecompose_spec hW goal) fun counted => ?_
  exact Triple.bind read_spec fun s => Triple.pure fun w hw => hw.1

theorem noteDir_spec (i : GoalId) (dir : Option Text) :
    Triple (Inv (σ := σ) W) (noteDir i dir) (fun _ => Inv W) (Inv W) := by
  cases dir with
  | none => exact Triple.pure fun _ h => h
  | some dir =>
    unfold noteDir
    refine Triple.bind read_spec fun s => commit_keeps ?_
    rintro w ⟨hinv, rfl⟩
    exact ⟨hinv, hinv.1.updateGoal _ _ fun _ => rfl⟩

theorem judge_spec (hW : env.Proposes W) (root : GoalId) (goal : Goal) (p : Progress) (result : AttemptResult) :
    Triple (Inv (σ := σ) W) (judge env cfg root goal p result) (fun _ => Inv W) (Inv W) := by
  unfold judge
  refine Triple.bind read_spec fun s => ?_
  refine Triple.bind (record_keeps _ _) fun _ => ?_
  refine Triple.bind (propagateFrom_keeps goal.id) fun _ => ?_
  have decomposed : ∀ q, Triple (Inv (σ := σ) W)
      (do let p ← decomposeAndRescope env cfg root goal q; pure (Next.again p)) (fun _ => Inv W) (Inv W) :=
    fun q => Triple.bind (decomposeAndRescope_spec hW root goal q) fun _ => Triple.pure fun _ h => h
  dsimp only
  repeat' split
  all_goals first
    | exact Triple.pure fun _ h => h
    | exact decomposed _

theorem attackOnce_spec (hW : env.Proposes W) (root : GoalId) (goal : Goal) (budget : ℚ) (p : Progress) :
    Triple (Inv (σ := σ) W) (attackOnce env cfg root goal budget p) (fun _ => Inv W) (Inv W) := by
  unfold attackOnce
  refine Triple.bind (ask_spec fun w e hw => hw.answered e) fun answer => ?_
  refine Triple.bind (noteDir_spec goal.id answer.1) fun _ => ?_
  split
  · exact Triple.raise fun _ h => h
  · exact judge_spec hW root goal p _

theorem workOn_spec (hW : env.Proposes W) (root : GoalId) (goal : Goal) (budget : ℚ) (p : Progress) :
    Triple (Inv (σ := σ) W) (workOn env cfg root goal budget p) (fun _ => Inv W) (Inv W) := by
  unfold workOn
  refine Triple.bind read_spec fun s => ?_
  split
  · refine Triple.bind ((decomposeAndRescope_spec hW root goal p).weaken fun w hw => hw.1) fun q => ?_
    split
    · exact Triple.pure fun _ => id
    · exact attackOnce_spec hW root goal budget q
  · exact (attackOnce_spec hW root goal budget p).weaken fun w hw => hw.1

theorem releaseLease_spec (i : GoalId) :
    Triple (Inv (σ := σ) W) (releaseLease cfg i) (fun _ => Inv W) (Inv W) := by
  unfold releaseLease
  refine Triple.bind read_spec fun s => commit_keeps ?_
  rintro w ⟨hinv, rfl⟩
  exact ⟨hinv, hinv.1.release ..⟩

theorem claimAndWork_spec (hW : env.Proposes W) (root : GoalId) (budget : ℚ) (candidates : List Goal) (p : Progress) :
    Triple (Inv (σ := σ) W) (claimAndWork env cfg root budget candidates p) (fun _ => Inv W) (Inv W) := by
  unfold claimAndWork
  refine Triple.bind (claimNext_spec _ _) fun claimed => ?_
  split
  · exact Triple.pure fun _ h => h
  · exact Triple.ensure (workOn_spec hW _ _ _ _) (fun _ => releaseLease_spec _) (releaseLease_spec _)

theorem solvePass_spec (hW : env.Proposes W) (root : GoalId) (budget : ℚ) (p : Progress) :
    Triple (Inv (σ := σ) W) (solvePass env cfg root budget p) (fun _ => Inv W) (Inv W) := by
  unfold solvePass
  refine Triple.bind read_spec fun s => ?_
  refine Triple.bind (lookup_spec fun w hw => hw.1) fun rootGoal => ?_
  repeat' split
  · exact Triple.pure fun w hw => hw.1.1
  · exact Triple.pure fun w hw => hw.1.1
  · exact Triple.pure fun w hw => hw.1.1
  · exact (claimAndWork_spec hW _ _ _ _).weaken fun w hw => hw.1.1

theorem solveLoop_spec (hW : env.Proposes W) (root : GoalId) (budget : ℚ) (n : ℕ) (p : Progress) :
    Triple (Inv (σ := σ) W) (solveLoop env cfg root budget n p) (fun _ => Inv W) (Inv W) := by
  induction n generalizing p with
  | zero => exact Triple.pure fun _ => id
  | succ n ih =>
    unfold solveLoop
    refine Triple.bind (solvePass_spec hW root budget p) fun next => ?_
    split
    · exact Triple.pure fun _ => id
    · exact ih _

theorem solve_spec (hW : env.Proposes W) (root : GoalId) (budget : ℚ) (n : ℕ) :
    Triple (Inv (σ := σ) W) (solve env cfg root budget n) (fun _ => Inv W) (Inv W) := by
  unfold solve
  refine Triple.bind (recover_spec none) fun _ => ?_
  refine Triple.bind read_spec fun s => ?_
  refine Triple.bind ((solveLoop_spec hW root budget n _).weaken fun w hw => hw.1) fun done => ?_
  refine Triple.bind read_spec fun t => ?_
  refine Triple.bind (lookup_spec fun w hw => hw.1) fun rootGoal => ?_
  exact Triple.pure fun w hw => hw.1.1

theorem upsertGoal_spec (identity statement : Text) :
    Triple (Inv (σ := σ) W) (upsertGoal identity statement) (fun _ => Inv W) (Inv W) := by
  unfold upsertGoal
  refine Triple.bind read_spec fun s => ?_
  refine Triple.bind (commit_keeps ?_) fun _ => ?_
  · rintro w ⟨hinv, rfl⟩
    exact ⟨hinv, hinv.1.grow (.insertGoal _ _ _)⟩
  · exact Triple.bind read_spec fun t => Triple.pure fun w hw => hw.1

theorem Inv.of_triple {α : Type} {m : Ctl σ α} (h : Triple (Inv W) m (fun _ => Inv W) (Inv W)) {w : World σ}
    (hw : Inv W w) : Inv W (m w).2 := by
  have := h w hw
  cases hm : m w with
  | mk r w' =>
    rw [hm] at this
    cases r <;> exact this

def Command.Admits (W : Sketch → Prop) : Command → Prop
  | .recordDecomposition _ sketch => W sketch
  | _ => True

theorem Inv.exec (hW : env.Proposes W) {w : World σ} (hw : Inv W w) {c : Command} (hc : c.Admits W) :
    Inv W (c.exec env cfg w) := by
  cases c with
  | upsertGoal i t => exact Inv.of_triple (upsertGoal_spec i t) hw
  | recordDecomposition g k => exact Inv.of_triple (recordDecomposition_spec g hc) hw
  | solve r b n => exact Inv.of_triple (solve_spec hW r b n) hw
  | recover now => exact Inv.of_triple (recover_spec now) hw
  | revalidateProposed => exact Inv.of_triple revalidateProposed_spec hw

theorem inv_fresh (e : σ) : Inv W (World.fresh e) := ⟨Sound.empty, by simp [World.fresh]⟩

theorem Inv.execAll (hW : env.Proposes W) {w : World σ} (hw : Inv W w) {cs : List Command}
    (hcs : ∀ c ∈ cs, c.Admits W) : Inv W (execAll env cfg w cs) := by
  induction cs generalizing w with
  | nil => exact hw
  | cons c cs ih =>
    exact ih (hw.exec hW (hcs c (List.mem_cons_self ..))) fun d hd => hcs d (List.mem_cons_of_mem c hd)

theorem sound_of_run (hW : env.Proposes W) {e : σ} {cs : List Command} (hcs : ∀ c ∈ cs, c.Admits W)
    {p : Snapshot} (hp : p ∈ (execAll env cfg (World.fresh e) cs).states) : Sound W p := by
  have hinv : Inv W (execAll env cfg (World.fresh e) cs) := (inv_fresh e).execAll hW hcs
  rcases List.mem_cons.mp hp with rfl | hp
  · exact hinv.1
  · exact hinv.2 p hp

/-- No false PROVED: in every state any run commits, a PROVED goal is justified. -/
theorem no_false_proved (env : Env σ) (cfg : Config) (e : σ) (cs : List Command) (p : Snapshot)
    (hp : p ∈ (execAll env cfg (World.fresh e) cs).states) (i : GoalId) (hi : p.store.Proved i) :
    Justified p [] i := by
  have hany : ∀ c ∈ cs, c.Admits fun _ => True := fun c _ => by cases c <;> trivial
  exact (sound_of_run (fun _ _ _ _ => trivial) hany hp).justified (by simp) hi

def leafSketch : Sketch where
  parentName := "root".toList
  parentSignature := "theorem root : P".toList
  parentBody := "leaf".toList
  subgoals := [⟨"leaf".toList, "leaf".toList, "theorem leaf : P".toList⟩]

def trivialProof : AttemptResult := { outcome := .proved, proofText := some "trivial".toList }
def noProof : AttemptResult := { outcome := .taskFailed }

def leafEnv : Env Unit where
  attack g _ e := ((none, .ok (if g.identity = "leaf".toList then trivialProof else noProof)), e)
  propose _ e := (some leafSketch, e)
  validateSketch _ _ e := (.ok ⟨true, []⟩, e)
  now e := (0, e)
  select := selectFirstOpen
  select_mem _ _ h := List.mem_of_head? h
  level := []

theorem no_false_proved_leaf :
    Justified (execAll leafEnv { owner := "w".toList } (World.fresh ())
      [.upsertGoal "root".toList "theorem root : P".toList, .solve 0 1 3]).toSnapshot [] 0 :=
  no_false_proved leafEnv { owner := "w".toList } () _ _ (List.mem_cons_self ..) 0
    (statusOf_proved (by decide +kernel))

end EvoHarness.Proof
