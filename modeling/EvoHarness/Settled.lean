import EvoHarness.NoFalseProved

/-! Propagation leaves nothing to recompute: the queue runs empty within its fuel, and a
goal that is not queued is settled. -/
namespace EvoHarness.Proof
open PyText Hoare

variable {σ : Type} {maxAttempts : ℤ} {budgetSpent : ℚ} {level : Text}

namespace Store

def derived (s : Store) (maxAttempts : ℤ) (i : GoalId) : GoalStatus :=
  goalStatusFrom ((s.attemptsOf i).map (·.outcome)) ((s.decompositionsOf i).map (·.status)) maxAttempts

def Waiting (s : Store) (i : GoalId) : Prop :=
  ∃ d ∈ s.decompositions, d.goalId = i ∧ d.status = .accepted ∧ ∀ j ∈ d.subgoalIds, s.Proved j

structure SettledAt (s : Store) (maxAttempts : ℤ) (i : GoalId) : Prop where
  status : s.statusOf i = s.derived maxAttempts i
  waiting : ¬ s.Waiting i

def Wide (s : Store) : Prop := ∀ d ∈ s.decompositions, d.subgoalIds ≠ []

theorem proved_iff_statusOf {s : Store} {i : GoalId} : s.Proved i ↔ s.statusOf i = .proved := by
  constructor
  · intro h
    obtain ⟨g, hg, hp⟩ := h
    simp [statusOf, hg, hp]
  · exact statusOf_proved

theorem statusOf_congr {s t : Store} (h : t.goals = s.goals) : t.statusOf = s.statusOf := by
  funext i
  simp only [statusOf, goal, h]

end Store

theorem read_at {s : Store} {R : World σ → Prop} :
    Triple (fun w : World σ => w.store = s) read (fun a w => a = s ∧ w.store = s) R :=
  fun _ hw => ⟨hw, hw⟩

theorem commit_at {s : Store} {P R : World σ → Prop} :
    Triple P (commit s) (fun _ w => w.store = s) R :=
  commit_spec fun _ _ => rfl

/-- The statuses a round over `ds` computes, from the goals of `s`. -/
def newStatuses (s : Store) (ds : List DecompositionRow) : List DecompositionStatus :=
  ds.map fun d => decompositionStatusFrom d.status (d.subgoalIds.map s.statusOf)

theorem advance_exact (ds : List DecompositionRow) (hnd : (ds.map (·.id)).Nodup) (s : Store)
    (hds : ∀ d ∈ ds, s.decomposition d.id = some d) :
    Triple (fun w : World σ => w.store = s) (advance ds)
      (fun statuses w => AdvancedTo s ds statuses w.store ∧ statuses = newStatuses s ds)
      (fun _ => False) := by
  induction ds generalizing s with
  | nil =>
    unfold advance
    refine Triple.pure fun w hw => ?_
    rw [hw]
    exact ⟨⟨.refl s, rfl, fun _ _ => rfl, rfl⟩, rfl⟩
  | cons d ds ih =>
    have hd := hds d (List.mem_cons_self ..)
    simp only [List.map_cons, List.nodup_cons] at hnd
    unfold advance
    refine Triple.bind read_at fun s₁ => Triple.assume fun hs₁ => ?_
    rw [hs₁]
    -- what the rest of the loop does, from whatever the head left
    have rest : ∀ t, Advances s t → t.goals = s.goals →
        (∀ k, k ≠ d.id → t.decomposition k = s.decomposition k) →
        Triple (fun w : World σ => w.store = t)
          (do
            let later ← advance ds
            pure (((t.decomposition d.id).map (·.status)).getD .proposed :: later))
          (fun statuses w => AdvancedTo s (d :: ds) statuses w.store ∧
            statuses = ((t.decomposition d.id).map (·.status)).getD .proposed :: newStatuses s ds)
          (fun _ => False) := by
      intro t hadv hgoals hother
      have htail : ∀ e ∈ ds, t.decomposition e.id = some e := by
        intro e he
        have hne : e.id ≠ d.id := fun h => hnd.1 (h ▸ List.mem_map_of_mem he)
        rw [hother e.id hne]
        exact hds e (List.mem_cons_of_mem d he)
      refine Triple.bind (ih hnd.2 t htail) fun later => Triple.pure fun w hw => ?_
      obtain ⟨hto, hlater⟩ := hw
      have hsame : newStatuses t ds = newStatuses s ds := by
        unfold newStatuses
        rw [Store.statusOf_congr hgoals]
      refine ⟨⟨hadv.trans hto.advances, hto.goals.trans hgoals, ?_, ?_⟩, by rw [hlater, hsame]⟩
      · intro k hk
        simp only [List.map_cons, List.mem_cons, not_or] at hk
        rw [hto.others k hk.2, hother k hk.1]
      · rw [List.map_cons, hto.others d.id hnd.1, ← hto.statuses]
    by_cases hmove : decompositionStatusFrom d.status (d.subgoalIds.map s.statusOf) = d.status
    · simp only [hmove, ne_eq, not_true, if_false]
      have h := rest s (.refl s) rfl fun _ _ => rfl
      rw [hd] at h
      refine h.strengthen fun statuses w hw => ⟨hw.1, hw.2.trans ?_⟩
      simp [newStatuses, hmove]
    · obtain ⟨hacc, hsub, hcomp⟩ := moved_status hmove
      have hnew : newStatuses s (d :: ds) = .completed :: newStatuses s ds := by
        simp [newStatuses, hcomp]
      rw [hnew]
      simp only [hcomp] at hmove ⊢
      rw [if_pos hmove]
      let t := s.setDecompositionStatus d.id .completed
      have htd : t.decomposition d.id = some (d.withStatus .completed []) := by
        rw [Store.decomposition_setDecompositionStatus, if_pos rfl, hd, Option.map_some]
      refine Triple.bind (Q := fun _ w => w.store = t) commit_at fun _ => ?_
      have h := rest t (.complete hd hacc []) rfl fun k hk => by
        rw [Store.decomposition_setDecompositionStatus, if_neg (Ne.symm hk)]
      rw [htd] at h
      exact h

theorem Advances.rows_eq {s t : Store} (h : Advances s t) :
    t.decompositions = s.decompositions.map fun d => (t.decomposition d.id).getD d := by
  apply List.ext_getElem?
  intro k
  rw [List.getElem?_map]
  cases hs : s.decompositions[k]? with
  | none =>
    have hc := h.row_core k
    have hnone : s.decomposition k = none := hs
    rw [hnone, Option.map_none, Option.map_eq_none_iff] at hc
    exact hc
  | some d =>
    obtain ⟨e, he, _⟩ := h.row hs
    have hid := Store.decomposition_id hs
    rw [Option.map_some, hid, he]
    exact he

theorem AdvancedTo.statuses_eq {s t : Store} {i : GoalId} {ds : List DecompositionRow}
    {statuses : List DecompositionStatus} (hds : ds.Perm (s.decompositionsOf i)) (h : AdvancedTo s ds statuses t) :
    ((t.decompositionsOf i).map (·.status)).Perm statuses := by
  have hgoal : ∀ d ∈ s.decompositions, ((t.decomposition d.id).getD d).goalId = d.goalId := by
    intro d hd
    obtain ⟨e, he, heg, _⟩ := h.advances.row (Store.mem_decompositions_iff.mp hd)
    simp [he, heg]
  have hof : t.decompositionsOf i = (s.decompositionsOf i).map fun d => (t.decomposition d.id).getD d := by
    unfold Store.decompositionsOf
    conv_lhs => rw [h.advances.rows_eq]
    rw [List.filter_map]
    congr 1
    refine List.filter_congr fun d hd => ?_
    simp [hgoal d hd]
  have hmap : statuses = ds.map fun d => ((t.decomposition d.id).getD d).status := by
    rw [h.statuses]
    refine List.map_congr_left fun d hd => ?_
    have hmem := (mem_decompositionsOf.mp (hds.mem_iff.mp hd)).1
    obtain ⟨e, he, _⟩ := h.advances.row (Store.mem_decompositions_iff.mp hmem)
    simp [he]
  rw [hof, List.map_map, hmap]
  exact (hds.map _).symm

structure Visited (maxAttempts : ℤ) (s t : Store) (i : GoalId) (parents : List GoalId) : Prop where
  advances : Advances s t
  goals : ∀ j, j ≠ i → t.goal j = s.goal j
  rows : ∀ d, d.goalId ≠ i → (d ∈ t.decompositions ↔ d ∈ s.decompositions)
  moved : ∀ d ∈ s.decompositionsOf i, ((t.decomposition d.id).map (·.status)).getD .proposed =
    decompositionStatusFrom d.status (d.subgoalIds.map s.statusOf)
  status : t.statusOf i = t.derived maxAttempts i
  queued : (t.statusOf i = s.statusOf i ∧ parents = []) ∨ (t.statusOf i ≠ s.statusOf i ∧ parents = s.parentsOf i)

theorem parentsOf_congr {s t : Store} (h : Advances s t) (i : GoalId) : t.parentsOf i = s.parentsOf i := by
  have hmap : ∀ ds : List DecompositionRow,
      (ds.filter (i ∈ ·.subgoalIds)).map (·.goalId) =
        ((ds.map DecompositionRow.core).filter (i ∈ ·.subgoalIds)).map (·.goalId) := by
    intro ds
    rw [List.filter_map, List.map_map]
    rfl
  unfold Store.parentsOf
  rw [hmap t.decompositions, hmap s.decompositions, h.rows]

theorem attemptsOf_congr {s t : Store} (h : Advances s t) (i : GoalId) : t.attemptsOf i = s.attemptsOf i := by
  unfold Store.attemptsOf
  rw [h.attempts]

theorem goalStatusFrom_congr {os : List Outcome} {ds es : List DecompositionStatus} {n : ℤ}
    (h : ∀ st, st ≠ .rejectedByVerifier → (st ∈ ds ↔ st ∈ es)) :
    goalStatusFrom os ds n = goalStatusFrom os es n := by
  have hcompleted : .completed ∈ ds ↔ DecompositionStatus.completed ∈ es := h _ (by simp)
  have hany : ds.any (· ∈ liveDecompositions) = es.any (· ∈ liveDecompositions) := by
    have hproposed : .proposed ∈ ds ↔ DecompositionStatus.proposed ∈ es := h _ (by simp)
    have haccepted : .accepted ∈ ds ↔ DecompositionStatus.accepted ∈ es := h _ (by simp)
    rw [Bool.eq_iff_iff, List.any_eq_true, List.any_eq_true]
    simp [liveDecompositions, and_or_left, exists_or, hproposed, haccepted]
  simp only [goalStatusFrom, hcompleted, hany]

/-- One turn, with the rows of the goal in the order `ds`. -/
def visitRows (maxAttempts : ℤ) (budgetSpent : ℚ) (solverLevel : Text) (id : GoalId) (ds : List DecompositionRow) :
    Ctl σ (List GoalId) := do
  let s ← read
  let current ← lookup (Store.noSuchGoal id) (s.goal id)
  let advanced ← advance ds
  let status := goalStatusFrom ((s.attemptsOf id).map (·.outcome)) advanced maxAttempts
  if status = current.status then pure []
  else do
    let s ← read
    if status = .exhausted then
      commit (s.setGoalStatus id status (some budgetSpent) (some solverLevel))
    else commit (s.setGoalStatus id status none none)
    pure (s.parentsOf id)

theorem visit_eq (i : GoalId) (w : World σ) :
    visit maxAttempts budgetSpent level i w = visitRows maxAttempts budgetSpent level i (w.store.decompositionsOf i) w :=
  rfl

theorem visitRows_exact (i : GoalId) (s : Store) (hi : i < s.goals.length) {ds : List DecompositionRow}
    (hperm : ds.Perm (s.decompositionsOf i)) :
    Triple (fun w : World σ => w.store = s) (visitRows maxAttempts budgetSpent level i ds)
      (fun parents w => Visited maxAttempts s w.store i parents) (fun _ => False) := by
  obtain ⟨current, hcur⟩ := Store.exists_goal hi
  unfold visitRows
  refine Triple.bind read_at fun s' => Triple.assume fun hs' => ?_
  rw [hs', hcur]
  refine Triple.bind (Q := fun a w => a = current ∧ w.store = s) (Triple.pure fun w hw => ⟨rfl, hw⟩)
    fun a => Triple.assume fun ha => ?_
  rw [ha]
  have hds : ∀ d ∈ ds, s.decomposition d.id = some d := fun d hd =>
    Store.mem_decompositions_iff.mp (mem_decompositionsOf.mp (hperm.mem_iff.mp hd)).1
  have hnodup : (ds.map (·.id)).Nodup := (hperm.map _).nodup_iff.mpr (nodup_ids_decompositionsOf s i)
  refine Triple.bind (advance_exact _ hnodup s hds) fun statuses => ?_
  have hstatusOf : s.statusOf i = current.status := by simp [Store.statusOf, hcur]
  -- the rows are written by now, the goal is not
  have hpart : ∀ t, AdvancedTo s ds statuses t →
      (∀ d, d.goalId ≠ i → (d ∈ t.decompositions ↔ d ∈ s.decompositions)) ∧
        t.derived maxAttempts i =
          goalStatusFrom ((s.attemptsOf i).map (·.outcome)) statuses maxAttempts := by
    intro t hto
    constructor
    · intro d hd
      have hnot : d.id ∉ ds.map (·.id) ∨ d ∉ s.decompositions ∧ d ∉ t.decompositions := by
        by_cases hmem : d.id ∈ ds.map (·.id)
        · obtain ⟨e, he, hid⟩ := List.mem_map.mp hmem
          obtain ⟨hes, heg⟩ := mem_decompositionsOf.mp (hperm.mem_iff.mp he)
          have hrow := Store.mem_decompositions_iff.mp hes
          refine Or.inr ⟨fun hds => ?_, fun hdt => ?_⟩
          · have := Store.mem_decompositions_iff.mp hds
            rw [← hid, hrow] at this
            exact hd (Option.some.inj this ▸ heg)
          · obtain ⟨e', he', hg', _⟩ := hto.advances.row hrow
            have := Store.mem_decompositions_iff.mp hdt
            rw [← hid, he'] at this
            exact hd (by rw [← Option.some.inj this, hg', heg])
        · exact Or.inl hmem
      cases hnot with
      | inl hnot =>
        rw [Store.mem_decompositions_iff, Store.mem_decompositions_iff, hto.others _ hnot]
      | inr hnot => exact ⟨fun h => absurd h hnot.2, fun h => absurd h hnot.1⟩
    · unfold Store.derived
      rw [attemptsOf_congr hto.advances]
      exact goalStatusFrom_congr fun st _ => (hto.statuses_eq hperm).mem_iff
  by_cases hst : goalStatusFrom ((s.attemptsOf i).map (·.outcome)) statuses maxAttempts = current.status
  · simp only [hst, if_true]
    refine Triple.pure fun w hw => ?_
    obtain ⟨hto, hnew⟩ := hw
    obtain ⟨hrows, hderived⟩ := hpart _ hto
    have hsame : w.store.statusOf i = s.statusOf i := by rw [Store.statusOf_congr hto.goals]
    refine ⟨hto.advances, fun j _ => by simp only [Store.goal, hto.goals], hrows,
      fun d hd => List.map_inj_left.mp (hto.statuses.symm.trans hnew) d (hperm.mem_iff.mpr hd), ?_, Or.inl ⟨hsame, rfl⟩⟩
    rw [hsame, hstatusOf, hderived, hst]
  · simp only [hst, if_false]
    refine Triple.bind read_spec fun t => ?_
    have write : ∀ b v, Triple
        (fun w : World σ => (AdvancedTo s ds statuses w.store ∧
          statuses = newStatuses s ds) ∧ w.store = t)
        (commit (t.setGoalStatus i
          (goalStatusFrom ((s.attemptsOf i).map (·.outcome)) statuses maxAttempts) b v))
        (fun _ w => Visited maxAttempts s w.store i (t.parentsOf i)) (fun _ => False) := by
      intro b v
      refine commit_spec fun w hw => ?_
      obtain ⟨⟨hto, hnew⟩, rfl⟩ := hw
      obtain ⟨hrows, hderived⟩ := hpart _ hto
      let u := w.store.setGoalStatus i
        (goalStatusFrom ((s.attemptsOf i).map (·.outcome)) statuses maxAttempts) b v
      have hgoals : ∀ j, u.goal j = if i = j then (w.store.goal j).map (fun g => { g with
          status := goalStatusFrom ((s.attemptsOf i).map (·.outcome)) statuses maxAttempts
          exhaustedAtBudget := b, exhaustedAtSolver := v }) else w.store.goal j :=
        fun j => Store.goal_updateGoal
      have hcur' : w.store.goal i = some current := by
        rw [← hcur]
        simp only [Store.goal, hto.goals]
      have hnewStatus : u.statusOf i = goalStatusFrom ((s.attemptsOf i).map (·.outcome)) statuses maxAttempts := by
        simp [Store.statusOf, hgoals, hcur']
      refine ⟨hto.advances.trans (.setGoalStatus ..), fun j hj => ?_, hrows,
        fun d hd => List.map_inj_left.mp (hto.statuses.symm.trans hnew) d (hperm.mem_iff.mpr hd), ?_, Or.inr ⟨?_, parentsOf_congr hto.advances i⟩⟩
      · refine (hgoals j).trans ?_
        rw [if_neg (Ne.symm hj)]
        simp only [Store.goal, hto.goals]
      · exact hnewStatus.trans hderived.symm
      · intro h
        exact hst (hnewStatus.symm.trans (h.trans hstatusOf))
    split
    · exact Triple.bind (write _ _) fun _ => Triple.pure fun w hw => hw
    · exact Triple.bind (write _ _) fun _ => Triple.pure fun w hw => hw

theorem visit_exact (i : GoalId) (s : Store) (hi : i < s.goals.length) :
    Triple (fun w : World σ => w.store = s) (visit maxAttempts budgetSpent level i)
      (fun parents w => Visited maxAttempts s w.store i parents) (fun _ => False) := by
  have hrows : Triple (fun w : World σ => w.store = s)
      (visitRows maxAttempts budgetSpent level i (s.decompositionsOf i))
      (fun parents w => Visited maxAttempts s w.store i parents) (fun _ => False) :=
    visitRows_exact i s hi (List.Perm.refl _)
  intro w hw
  rw [visit_eq, hw]
  exact hrows w hw

namespace Visited
variable {s t : Store} {i j : GoalId} {parents : List GoalId}

theorem statusOf_other (h : Visited maxAttempts s t i parents) (hj : j ≠ i) :
    t.statusOf j = s.statusOf j := by
  simp only [Store.statusOf, h.goals j hj]

theorem derived_other (h : Visited maxAttempts s t i parents) (hj : j ≠ i) :
    t.derived maxAttempts j = s.derived maxAttempts j := by
  unfold Store.derived
  rw [attemptsOf_congr h.advances]
  refine goalStatusFrom_congr fun st _ => ?_
  simp only [List.mem_map, mem_decompositionsOf]
  constructor
  · intro hd
    obtain ⟨d, ⟨hd, hg⟩, hs⟩ := hd
    exact ⟨d, ⟨(h.rows d (hg ▸ hj)).mp hd, hg⟩, hs⟩
  · intro hd
    obtain ⟨d, ⟨hd, hg⟩, hs⟩ := hd
    exact ⟨d, ⟨(h.rows d (hg ▸ hj)).mpr hd, hg⟩, hs⟩

theorem newly_proved (h : Visited maxAttempts s t i parents) {d : DecompositionRow}
    (hd : d ∈ s.decompositions) (ht : ∀ k ∈ d.subgoalIds, t.Proved k)
    (hs : ¬ ∀ k ∈ d.subgoalIds, s.Proved k) : d.goalId ∈ parents := by
  push Not at hs
  obtain ⟨k, hk, hnot⟩ := hs
  have hki : k = i := by
    by_contra hne
    have := Store.proved_iff_statusOf.mp (ht k hk)
    rw [h.statusOf_other hne] at this
    exact hnot (Store.proved_iff_statusOf.mpr this)
  subst hki
  cases h.queued with
  | inl hsame =>
    have := Store.proved_iff_statusOf.mp (ht k hk)
    rw [hsame.1] at this
    exact absurd (Store.proved_iff_statusOf.mpr this) hnot
  | inr hchanged =>
    rw [hchanged.2]
    simp only [Store.parentsOf, List.mem_dedup, List.mem_map, List.mem_filter, decide_eq_true_eq]
    exact ⟨d, ⟨hd, hk⟩, rfl⟩

theorem settledAt (h : Visited maxAttempts s t i parents) (hwide : s.Wide)
    (hj : j = i ∨ s.SettledAt maxAttempts j) (hnot : j ∉ parents) : t.SettledAt maxAttempts j := by
  by_cases hji : j = i
  · subst hji
    refine ⟨h.status, fun hw => ?_⟩
    obtain ⟨e, he, hg, hacc, hproved⟩ := hw
    obtain ⟨d, hd, hdg, hsub, _, hst⟩ := h.advances.row_back (Store.mem_decompositions_iff.mp he)
    have hds := List.mem_of_getElem? hd
    have hid := Store.decomposition_id hd
    have hdacc : d.status = .accepted := by
      cases hst with
      | inl hst => exact hst.symm.trans hacc
      | inr hst => exact hst.1
    have hgd : d.goalId = j := hdg.symm.trans hg
    have hmoved := h.moved d (mem_decompositionsOf.mpr ⟨hds, hgd⟩)
    rw [hid, Store.mem_decompositions_iff.mp he, Option.map_some, Option.getD_some, hacc,
      decompositionStatusFrom_eq] at hmoved
    refine hnot (hgd ▸ h.newly_proved hds (fun k hk => hproved k (hsub ▸ hk)) fun hall => ?_)
    have hne : d.subgoalIds.map s.statusOf ≠ [] := by simpa using hwide d hds
    have hsts : ∀ st ∈ d.subgoalIds.map s.statusOf, st = .proved := by
      intro st hst
      obtain ⟨k, hk, rfl⟩ := List.mem_map.mp hst
      exact Store.proved_iff_statusOf.mp (hall k hk)
    rw [if_pos ⟨hdacc, hne, hsts⟩] at hmoved
    exact absurd hmoved (by decide)
  · have hset : s.SettledAt maxAttempts j := by
      cases hj with
      | inl hj => exact absurd hj hji
      | inr hj => exact hj
    refine ⟨?_, fun hw => ?_⟩
    · rw [h.statusOf_other hji, h.derived_other hji]
      exact hset.status
    · obtain ⟨d, hd, hg, hacc, hproved⟩ := hw
      have hds := (h.rows d (hg ▸ hji)).mp hd
      exact hnot (hg ▸ h.newly_proved hds hproved fun hall => hset.waiting ⟨d, hds, hg, hacc, hall⟩)

theorem wide (h : Visited maxAttempts s t i parents) (hwide : s.Wide) : t.Wide := by
  intro e he
  obtain ⟨d, hd, _, hsub, _⟩ := h.advances.row_back (Store.mem_decompositions_iff.mp he)
  rw [hsub]
  exact hwide d (List.mem_of_getElem? hd)

end Visited

def Store.Kept (s : Store) (maxAttempts : ℤ) : Prop :=
  ∀ i, s.statusOf i = .proved → s.derived maxAttempts i = .proved

theorem derived_proved_iff {s : Store} {n : ℤ} {i : GoalId} : s.derived n i = .proved ↔
    (∃ a ∈ s.attemptsOf i, a.outcome = .proved) ∨ ∃ d ∈ s.decompositionsOf i, d.status = .completed := by
  unfold Store.derived
  rw [goalStatusFrom_proved_iff]
  simp only [List.mem_map]

theorem Advances.derived_proved {s t : Store} {n : ℤ} {i : GoalId} (h : Advances s t)
    (hp : s.derived n i = .proved) : t.derived n i = .proved := by
  rw [derived_proved_iff] at hp ⊢
  cases hp with
  | inl ha =>
    rw [attemptsOf_congr h]
    exact Or.inl ha
  | inr hd =>
    obtain ⟨d, hd, hc⟩ := hd
    obtain ⟨hmem, hg⟩ := mem_decompositionsOf.mp hd
    obtain ⟨e, he, heg, _, _, hst⟩ := h.row (Store.mem_decompositions_iff.mp hmem)
    refine Or.inr ⟨e, mem_decompositionsOf.mpr ⟨List.mem_of_getElem? he, heg.trans hg⟩, ?_⟩
    cases hst with
    | inl hst => exact hst.trans hc
    | inr hst => exact hst.2

theorem Visited.kept {s t : Store} {i : GoalId} {parents : List GoalId}
    (h : Visited maxAttempts s t i parents) (hk : s.Kept maxAttempts) : t.Kept maxAttempts := by
  intro j hj
  by_cases hji : j = i
  · subst hji
    exact h.status ▸ hj
  · rw [h.statusOf_other hji] at hj
    exact h.advances.derived_proved (hk j hj)

/-- The goals that are not PROVED, and the goals whose status is not the one their rows give. -/
def unproved (s : Store) : Finset GoalId :=
  (Finset.range s.goals.length).filter fun j => s.statusOf j ≠ .proved

def underived (maxAttempts : ℤ) (s : Store) : Finset GoalId :=
  (Finset.range s.goals.length).filter fun j => s.statusOf j ≠ s.derived maxAttempts j

def changesLeft (maxAttempts : ℤ) (s : Store) : ℕ := (unproved s).card + (underived maxAttempts s).card

theorem Advances.length_goals {s t : Store} (h : Advances s t) : t.goals.length = s.goals.length := by
  simpa using congrArg List.length h.goals

theorem length_parentsOf_le (s : Store) (i : GoalId) : (s.parentsOf i).length ≤ s.goals.length := by
  have hsub : (s.parentsOf i).toFinset ⊆ Finset.range s.goals.length := by
    intro j hj
    simp only [Store.parentsOf, List.mem_toFinset, List.mem_dedup, List.mem_map, List.mem_filter] at hj
    obtain ⟨d, ⟨hd, _⟩, rfl⟩ := hj
    exact Finset.mem_range.mpr (Store.decomposition_goal_lt hd)
  have hcard := Finset.card_le_card hsub
  rw [Finset.card_range, List.toFinset_card_of_nodup (show (s.parentsOf i).Nodup from List.nodup_dedup _)] at hcard
  exact hcard

namespace Visited
variable {s t : Store} {i : GoalId} {parents : List GoalId}

theorem unproved_subset (h : Visited maxAttempts s t i parents) (hk : s.Kept maxAttempts) :
    unproved t ⊆ unproved s := by
  intro j hj
  simp only [unproved, Finset.mem_filter, Finset.mem_range, h.advances.length_goals] at hj ⊢
  refine ⟨hj.1, fun hp => hj.2 ?_⟩
  by_cases hji : j = i
  · subst hji
    rw [h.status]
    exact h.advances.derived_proved (hk j hp)
  · rw [h.statusOf_other hji, hp]

theorem underived_subset (h : Visited maxAttempts s t i parents) :
    underived maxAttempts t ⊆ underived maxAttempts s := by
  intro j hj
  simp only [underived, Finset.mem_filter, Finset.mem_range, h.advances.length_goals] at hj ⊢
  refine ⟨hj.1, fun hs => hj.2 ?_⟩
  by_cases hji : j = i
  · exact hji ▸ h.status
  · rw [h.statusOf_other hji, h.derived_other hji, hs]

theorem changed_proved (h : Visited maxAttempts s t i parents) (hs : s.statusOf i = s.derived maxAttempts i)
    (hne : t.statusOf i ≠ s.statusOf i) : t.statusOf i = .proved := by
  rw [h.status] at hne ⊢
  by_contra hnot
  refine hne ?_
  rw [hs]
  unfold Store.derived
  rw [attemptsOf_congr h.advances]
  have hnone : ∀ e ∈ t.decompositionsOf i, e.status ≠ .completed := by
    intro e he hc
    exact hnot (derived_proved_iff.mpr (Or.inr ⟨e, he, hc⟩))
  refine goalStatusFrom_congr fun st _ => ?_
  simp only [List.mem_map]
  constructor
  · intro hex
    obtain ⟨e, he, rfl⟩ := hex
    obtain ⟨hmem, hg⟩ := mem_decompositionsOf.mp he
    obtain ⟨d, hd, hdg, _, _, hst⟩ := h.advances.row_back (Store.mem_decompositions_iff.mp hmem)
    refine ⟨d, mem_decompositionsOf.mpr ⟨List.mem_of_getElem? hd, hdg.symm.trans hg⟩, ?_⟩
    cases hst with
    | inl hst => exact hst.symm
    | inr hst => exact absurd hst.2 (hnone e he)
  · intro hex
    obtain ⟨d, hd, rfl⟩ := hex
    obtain ⟨hmem, hg⟩ := mem_decompositionsOf.mp hd
    obtain ⟨e, he, heg, _, _, hst⟩ := h.advances.row (Store.mem_decompositions_iff.mp hmem)
    have hof : e ∈ t.decompositionsOf i :=
      mem_decompositionsOf.mpr ⟨List.mem_of_getElem? he, heg.trans hg⟩
    refine ⟨e, hof, ?_⟩
    cases hst with
    | inl hst => exact hst
    | inr hst => exact absurd hst.2 (hnone e hof)

theorem changesLeft_le (h : Visited maxAttempts s t i parents) (hk : s.Kept maxAttempts) :
    changesLeft maxAttempts t ≤ changesLeft maxAttempts s := by
  have h1 := Finset.card_le_card (h.unproved_subset hk)
  have h2 := Finset.card_le_card h.underived_subset
  unfold changesLeft
  omega

theorem changesLeft_lt (h : Visited maxAttempts s t i parents) (hk : s.Kept maxAttempts)
    (hi : i < s.goals.length) (hne : t.statusOf i ≠ s.statusOf i) :
    changesLeft maxAttempts t < changesLeft maxAttempts s := by
  have hsub1 := h.unproved_subset hk
  have hsub2 := h.underived_subset
  unfold changesLeft
  by_cases hs : s.statusOf i = s.derived maxAttempts i
  · have hproved := h.changed_proved hs hne
    have hlt : unproved t ⊂ unproved s := by
      refine Finset.ssubset_iff_subset_ne.mpr ⟨hsub1, fun heq => ?_⟩
      have hmem : i ∈ unproved s := by
        simp only [unproved, Finset.mem_filter, Finset.mem_range]
        exact ⟨hi, fun hp => hne (hproved.trans hp.symm)⟩
      rw [← heq] at hmem
      simp only [unproved, Finset.mem_filter] at hmem
      exact hmem.2 hproved
    have h1 := Finset.card_lt_card hlt
    have h2 := Finset.card_le_card hsub2
    omega
  · have hlt : underived maxAttempts t ⊂ underived maxAttempts s := by
      refine Finset.ssubset_iff_subset_ne.mpr ⟨hsub2, fun heq => ?_⟩
      have hmem : i ∈ underived maxAttempts s := by
        simp only [underived, Finset.mem_filter, Finset.mem_range]
        exact ⟨hi, hs⟩
      rw [← heq] at hmem
      simp only [underived, Finset.mem_filter] at hmem
      exact hmem.2 h.status
    have h1 := Finset.card_le_card hsub1
    have h2 := Finset.card_lt_card hlt
    omega

end Visited

structure Draining (maxAttempts : ℤ) (s : Store) (fuel : ℕ) (pending : List GoalId) : Prop where
  settled : ∀ j, j ∉ pending → s.SettledAt maxAttempts j
  wide : s.Wide
  kept : s.Kept maxAttempts
  exist : ∀ j ∈ pending, j < s.goals.length
  enough : pending.length + changesLeft maxAttempts s * s.goals.length ≤ fuel

theorem Visited.parent_lt {s t : Store} {i j : GoalId} {parents : List GoalId}
    (h : Visited maxAttempts s t i parents) (hj : j ∈ parents) : j < s.goals.length := by
  cases h.queued with
  | inl hq => simp [hq.2] at hj
  | inr hq =>
    rw [hq.2] at hj
    simp only [Store.parentsOf, List.mem_dedup, List.mem_map, List.mem_filter] at hj
    obtain ⟨d, ⟨hd, _⟩, rfl⟩ := hj
    exact Store.decomposition_goal_lt hd

theorem Draining.visit {s t : Store} {fuel : ℕ} {i : GoalId} {pending parents : List GoalId}
    (h : Draining maxAttempts s (fuel + 1) (i :: pending)) (hv : Visited maxAttempts s t i parents) :
    Draining maxAttempts t fuel (parents.reverse ++ pending) := by
  have hlen := hv.advances.length_goals
  have hi := h.exist i (List.mem_cons_self ..)
  refine ⟨fun j hj => ?_, hv.wide h.wide, hv.kept h.kept, fun j hj => ?_, ?_⟩
  · simp only [List.mem_append, List.mem_reverse, not_or] at hj
    refine hv.settledAt h.wide ?_ hj.1
    by_cases hji : j = i
    · exact Or.inl hji
    · exact Or.inr (h.settled j (by simp [hji, hj.2]))
  · rw [hlen]
    cases List.mem_append.mp hj with
    | inl hj => exact hv.parent_lt (List.mem_reverse.mp hj)
    | inr hj => exact h.exist j (List.mem_cons_of_mem _ hj)
  · have henough := h.enough
    simp only [List.length_append, List.length_reverse, List.length_cons, hlen] at henough ⊢
    cases hv.queued with
    | inl hq =>
      have hle := Nat.mul_le_mul_right s.goals.length (hv.changesLeft_le h.kept)
      simp only [hq.2, List.length_nil]
      omega
    | inr hq =>
      have hlt := hv.changesLeft_lt h.kept hi hq.1
      have hparents := length_parentsOf_le s i
      have hmul := Nat.mul_le_mul_right s.goals.length (Nat.succ_le_of_lt hlt)
      rw [Nat.succ_mul] at hmul
      rw [hq.2]
      omega

structure Steady (maxAttempts : ℤ) (s : Store) : Prop where
  settled : ∀ j, s.SettledAt maxAttempts j
  wide : s.Wide

theorem propagateLoop_exact (fuel : ℕ) (pending : List GoalId) (s s₀ : Store)
    (h : Draining maxAttempts s fuel pending) (hadv : Advances s₀ s) :
    Triple (fun w : World σ => w.store = s) (propagateLoop maxAttempts budgetSpent level fuel pending)
      (fun rest w => rest = [] ∧ Steady maxAttempts w.store ∧ Advances s₀ w.store) (fun _ => False) := by
  induction fuel generalizing pending s with
  | zero =>
    have henough := h.enough
    obtain rfl : pending = [] := List.length_eq_zero_iff.mp (by omega)
    refine Triple.pure fun w hw => ?_
    rw [hw]
    exact ⟨rfl, ⟨fun j => h.settled j List.not_mem_nil, h.wide⟩, hadv⟩
  | succ fuel ih =>
    cases pending with
    | nil =>
      refine Triple.pure fun w hw => ?_
      rw [hw]
      exact ⟨rfl, ⟨fun j => h.settled j List.not_mem_nil, h.wide⟩, hadv⟩
    | cons i pending =>
      unfold propagateLoop
      have hi := h.exist i (List.mem_cons_self ..)
      refine Triple.bind (visit_exact i s hi) fun parents => ?_
      intro w hv
      exact ih _ w.store (h.visit hv) (hadv.trans hv.advances) w rfl

/-- From a store settled everywhere but at `i`, propagation from `i` settles it all. -/
theorem propagate_exact (i : GoalId) (s : Store) (hi : i < s.goals.length) (hwide : s.Wide)
    (hkept : s.Kept maxAttempts) (hsettled : ∀ j, j ≠ i → s.SettledAt maxAttempts j) :
    Triple (fun w : World σ => w.store = s) (propagate maxAttempts budgetSpent level i)
      (fun _ w => Steady maxAttempts w.store ∧ Advances s w.store) (fun _ => False) := by
  have hunproved : (unproved s).card ≤ s.goals.length := by
    have := Finset.card_le_card (Finset.filter_subset (fun j => s.statusOf j ≠ .proved)
      (Finset.range s.goals.length))
    rwa [Finset.card_range] at this
  have hunderived : (underived maxAttempts s).card ≤ 1 := by
    refine Finset.card_le_one.mpr fun a ha b hb => ?_
    have honly : ∀ j ∈ underived maxAttempts s, j = i := by
      intro j hj
      simp only [underived, Finset.mem_filter] at hj
      by_contra hne
      exact hj.2 (hsettled j hne).status
    rw [honly a ha, honly b hb]
  have hdrain : Draining maxAttempts s (propagateFuel s) [i] := by
    refine ⟨fun j hj => hsettled j (by simpa using hj), hwide, hkept, by simpa using hi, ?_⟩
    have hchanges : changesLeft maxAttempts s ≤ s.goals.length + 1 := by
      unfold changesLeft
      omega
    have hmul := Nat.mul_le_mul_right s.goals.length hchanges
    have hfuel : (s.goals.length + 1) * s.goals.length ≤
        (s.decompositions.length + s.goals.length) * (s.goals.length + 1) := by
      rw [Nat.mul_comm]
      exact Nat.mul_le_mul_right _ (Nat.le_add_left ..)
    unfold propagateFuel
    simp only [List.length_singleton]
    omega
  unfold propagate
  refine Triple.bind read_at fun s' => Triple.assume fun hs' => ?_
  rw [hs']
  refine Triple.bind (propagateLoop_exact _ _ s s hdrain (.refl s)) fun rest => ?_
  exact Triple.pure fun w hw => hw.2

theorem Steady.kept {s : Store} (h : Steady maxAttempts s) : s.Kept maxAttempts :=
  fun j hj => (h.settled j).status ▸ hj

end EvoHarness.Proof
