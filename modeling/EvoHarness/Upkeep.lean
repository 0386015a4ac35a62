import EvoHarness.Settled
import EvoHarness.Library.Runs

/-! The controller's operations, one completed call after another: which of them may leave a
status behind that the rows no longer give. -/
namespace EvoHarness.Proof
open PyText Hoare Runs

variable {σ : Type} {n : ℤ}

/-- `t` differs from `s` in the rows and attempts of one goal, and in no status of a goal. -/
structure TouchedAt (n : ℤ) (s t : Store) (i : GoalId) : Prop where
  statusOf : ∀ j, t.statusOf j = s.statusOf j
  derived : ∀ j, j ≠ i → t.derived n j = s.derived n j
  rows : ∀ d ∈ t.decompositions, d.goalId ≠ i → d ∈ s.decompositions
  wide : s.Wide → t.Wide
  kept : s.derived n i = .proved → t.derived n i = .proved

namespace TouchedAt
variable {s t u : Store} {i j : GoalId}

theorem trans (h : TouchedAt n s t i) (h' : TouchedAt n t u i) : TouchedAt n s u i where
  statusOf j := (h'.statusOf j).trans (h.statusOf j)
  derived j hj := (h'.derived j hj).trans (h.derived j hj)
  rows d hd hg := h.rows d (h'.rows d hd hg) hg
  wide hw := h'.wide (h.wide hw)
  kept hp := h'.kept (h.kept hp)

theorem proved_iff (h : TouchedAt n s t i) : t.Proved j ↔ s.Proved j := by
  rw [Store.proved_iff_statusOf, Store.proved_iff_statusOf, h.statusOf]

theorem others (h : TouchedAt n s t i) (hs : Steady n s) (hj : j ≠ i) : t.SettledAt n j := by
  refine ⟨?_, fun hw => (hs.settled j).waiting ?_⟩
  · rw [h.statusOf, h.derived j hj]
    exact (hs.settled j).status
  · obtain ⟨d, hd, hg, hacc, hproved⟩ := hw
    exact ⟨d, h.rows d hd (hg ▸ hj), hg, hacc, fun k hk => h.proved_iff.mp (hproved k hk)⟩

theorem keeps (h : TouchedAt n s t i) (hs : Steady n s) : t.Kept n := by
  intro j hj
  rw [h.statusOf] at hj
  by_cases hji : j = i
  · exact hji ▸ h.kept (hji ▸ hs.kept j hj)
  · rw [h.derived j hji]
    exact hs.kept j hj

theorem steady_iff (h : TouchedAt n s t i) (hs : Steady n s) : Steady n t ↔ t.SettledAt n i := by
  constructor
  · exact fun ht => ht.settled i
  · intro hi
    refine ⟨fun j => ?_, h.wide hs.wide⟩
    by_cases hji : j = i
    · exact hji ▸ hi
    · exact h.others hs hji

end TouchedAt

theorem touched_recordAttempt {s t : Store} {a : Attempt} (h : s.recordAttempt a = .ok t) :
    TouchedAt n s t a.goalId := by
  obtain ⟨hgoals, hdecs, hatt, _⟩ := Store.recordAttempt_spec h
  have hof : ∀ j, t.decompositionsOf j = s.decompositionsOf j := by
    intro j
    simp only [Store.decompositionsOf, hdecs]
  refine ⟨fun j => by rw [Store.statusOf_congr hgoals], fun j hj => ?_, fun d hd _ => hdecs ▸ hd, ?_, fun hp => ?_⟩
  · have hattempts : t.attemptsOf j = s.attemptsOf j := by
      simp [Store.attemptsOf, hatt, Ne.symm hj]
    unfold Store.derived
    rw [hof, hattempts]
  · intro hw d hd
    exact hw d (hdecs ▸ hd)
  · rw [derived_proved_iff] at hp ⊢
    rw [hof]
    cases hp with
    | inl ha =>
      obtain ⟨b, hb, hbo⟩ := ha
      refine Or.inl ⟨b, ?_, hbo⟩
      simp only [Store.attemptsOf, hatt, List.filter_append, List.mem_append]
      exact Or.inl hb
    | inr hd => exact Or.inr hd

theorem mem_decompositions_set {s : Store} {k : DecompositionId} {st : DecompositionStatus} {r : Text}
    {d e : DecompositionRow} (hd : s.decomposition k = some d)
    (he : e ∈ (s.setDecompositionStatus k st r).decompositions) :
    e = d.withStatus st r ∨ (e ∈ s.decompositions ∧ e.id ≠ k) := by
  have hrow := Store.mem_decompositions_iff.mp he
  rw [Store.decomposition_setDecompositionStatus] at hrow
  by_cases hk : k = e.id
  · rw [if_pos hk, ← hk, hd, Option.map_some] at hrow
    exact Or.inl (Option.some.inj hrow).symm
  · rw [if_neg hk] at hrow
    exact Or.inr ⟨Store.mem_decompositions_iff.mpr hrow, Ne.symm hk⟩

theorem mem_set_of_ne {s : Store} {k : DecompositionId} {st : DecompositionStatus} {r : Text}
    {e : DecompositionRow} (he : e ∈ s.decompositions) (hk : e.id ≠ k) :
    e ∈ (s.setDecompositionStatus k st r).decompositions := by
  rw [Store.mem_decompositions_iff, Store.decomposition_setDecompositionStatus, if_neg (Ne.symm hk)]
  exact Store.mem_decompositions_iff.mp he

theorem touched_setStatus {s : Store} {k : DecompositionId} {d : DecompositionRow}
    (hd : s.decomposition k = some d) (hopen : d.status ≠ .completed) (st : DecompositionStatus) (r : Text) :
    TouchedAt n s (s.setDecompositionStatus k st r) d.goalId := by
  have hid := Store.decomposition_id hd
  refine ⟨fun j => rfl, fun j hj => ?_, fun e he hg => ?_, fun hw e he => ?_, fun hp => ?_⟩
  · unfold Store.derived
    refine goalStatusFrom_congr fun x _ => ?_
    simp only [List.mem_map, mem_decompositionsOf]
    constructor
    · intro hex
      obtain ⟨e, ⟨he, hg⟩, hx⟩ := hex
      cases mem_decompositions_set hd he with
      | inl h =>
        rw [h] at hg
        exact absurd hg.symm hj
      | inr h => exact ⟨e, ⟨h.1, hg⟩, hx⟩
    · intro hex
      obtain ⟨e, ⟨he, hg⟩, hx⟩ := hex
      refine ⟨e, ⟨mem_set_of_ne he fun hk => ?_, hg⟩, hx⟩
      have hrow := Store.mem_decompositions_iff.mp he
      rw [hk, hd] at hrow
      rw [← Option.some.inj hrow] at hg
      exact hj hg.symm
  · cases mem_decompositions_set hd he with
    | inl h => exact absurd (h ▸ rfl) hg
    | inr h => exact h.1
  · cases mem_decompositions_set hd he with
    | inl h =>
      rw [h]
      exact hw d (List.mem_of_getElem? hd)
    | inr h => exact hw e h.1
  · rw [derived_proved_iff] at hp ⊢
    cases hp with
    | inl ha => exact Or.inl ha
    | inr hc =>
      obtain ⟨e, he, hc⟩ := hc
      obtain ⟨hmem, hg⟩ := mem_decompositionsOf.mp he
      refine Or.inr ⟨e, mem_decompositionsOf.mpr ⟨mem_set_of_ne hmem fun hk => hopen ?_, hg⟩, hc⟩
      have hrow := Store.mem_decompositions_iff.mp hmem
      rw [hk, hd] at hrow
      rw [Option.some.inj hrow, hc]

theorem addDecomposition_spec {s t : Store} {i : GoalId} {ps : List (Text × Text)} {k : Option Sketch}
    (h : s.addDecomposition i ps k = .ok t) : ∃ u ids, Store.GrowsBy s u ∧ ids ≠ [] ∧ t.goals = u.goals ∧
      t.attempts = s.attempts ∧ t.decompositions = s.decompositions ++
        [{ id := s.decompositions.length, goalId := i, subgoalIds := ids, sketch := k }] ∧
      i < s.goals.length := by
  unfold Store.addDecomposition at h
  split at h
  · next hcheck =>
    obtain ⟨u, ids, hgrow, hids, _, hgoals, hatt, hdecs⟩ := Store.writeDecomposition_spec h
    unfold Store.checkDecomposition at hcheck
    split at hcheck
    · simp at hcheck
    · next hne =>
      split at hcheck
      · simp at hcheck
      · next parent hparent =>
        refine ⟨u, ids, hgrow, fun hnil => hne ?_, hgoals, hatt, hdecs, Store.goal_lt hparent⟩
        rw [hnil] at hids
        simpa using hids.symm
  · simp at h

theorem proposed_addDecomposition {s t : Store} {i : GoalId} {ps : List (Text × Text)} {k : Option Sketch}
    (h : s.addDecomposition i ps k = .ok t) : ∃ d, t.decomposition s.decompositions.length = some d ∧
      d.goalId = i ∧ d.status = .proposed := by
  obtain ⟨u, ids, _, _, _, _, hdecs, _⟩ := addDecomposition_spec h
  unfold Store.decomposition
  rw [hdecs]
  exact ⟨_, List.getElem?_concat_length, rfl, rfl⟩

theorem Store.GrowsBy.statusOf {s u : Store} (h : Store.GrowsBy s u) (j : GoalId) :
    u.statusOf j = s.statusOf j := by
  unfold Store.statusOf
  cases hs : s.goal j with
  | some g => rw [h.kept j g hs]
  | none =>
    cases hu : u.goal j with
    | none => rfl
    | some g =>
      cases h.fresh j g hu with
      | inl hg => simp [hs] at hg
      | inr hg => simp [hg.2.1]

theorem touched_addDecomposition {s t : Store} {i : GoalId} {ps : List (Text × Text)} {k : Option Sketch}
    (h : s.addDecomposition i ps k = .ok t) : TouchedAt n s t i := by
  obtain ⟨u, ids, hgrow, hne, hgoals, hatt, hdecs, _⟩ := addDecomposition_spec h
  have hattempts : ∀ j, t.attemptsOf j = s.attemptsOf j := by
    intro j
    simp only [Store.attemptsOf, hatt]
  refine ⟨fun j => ?_, fun j hj => ?_, fun d hd hg => ?_, fun hw d hd => ?_, fun hp => ?_⟩
  · rw [Store.statusOf_congr hgoals]
    exact hgrow.statusOf j
  · have hof : t.decompositionsOf j = s.decompositionsOf j := by
      simp [Store.decompositionsOf, hdecs, Ne.symm hj]
    unfold Store.derived
    rw [hof, hattempts]
  · rw [hdecs] at hd
    cases List.mem_append.mp hd with
    | inl hd => exact hd
    | inr hd =>
      rw [List.mem_singleton.mp hd] at hg
      exact absurd rfl hg
  · rw [hdecs] at hd
    cases List.mem_append.mp hd with
    | inl hd => exact hw d hd
    | inr hd =>
      rw [List.mem_singleton.mp hd]
      exact hne
  · rw [derived_proved_iff] at hp ⊢
    rw [hattempts]
    cases hp with
    | inl ha => exact Or.inl ha
    | inr hc =>
      obtain ⟨d, hd, hc⟩ := hc
      obtain ⟨hmem, hg⟩ := mem_decompositionsOf.mp hd
      refine Or.inr ⟨d, mem_decompositionsOf.mpr ⟨?_, hg⟩, hc⟩
      rw [hdecs]
      exact List.mem_append_left _ hmem

structure Alike (s t : Store) : Prop where
  statusOf : ∀ j, t.statusOf j = s.statusOf j
  attempts : t.attempts = s.attempts
  decompositions : t.decompositions = s.decompositions

namespace Alike
variable {s t : Store} {j : GoalId}

theorem derived (h : Alike s t) : t.derived n j = s.derived n j := by
  simp only [Store.derived, Store.attemptsOf, Store.decompositionsOf, h.attempts, h.decompositions]

theorem proved_iff (h : Alike s t) : t.Proved j ↔ s.Proved j := by
  rw [Store.proved_iff_statusOf, Store.proved_iff_statusOf, h.statusOf]

theorem steady (h : Alike s t) (hs : Steady n s) : Steady n t := by
  refine ⟨fun j => ⟨?_, fun hw => (hs.settled j).waiting ?_⟩, ?_⟩
  · rw [h.statusOf, h.derived]
    exact (hs.settled j).status
  · obtain ⟨d, hd, hg, hacc, hproved⟩ := hw
    exact ⟨d, h.decompositions ▸ hd, hg, hacc, fun k hk => h.proved_iff.mp (hproved k hk)⟩
  · intro d hd
    exact hs.wide d (h.decompositions ▸ hd)

theorem touched (h : Alike s t) (i : GoalId) : TouchedAt n s t i where
  statusOf := h.statusOf
  derived _ _ := h.derived
  rows _ hd _ := h.decompositions ▸ hd
  wide hw _ hd := hw _ (h.decompositions ▸ hd)
  kept hp := h.derived.trans hp

theorem of_grows (h : Store.GrowsBy s t) : Alike s t := ⟨h.statusOf, h.attempts, h.decompositions⟩

theorem updateGoal {i : GoalId} {f : Goal → Goal} (hid : ∀ g, (f g).id = g.id)
    (hident : ∀ g, (f g).identity = g.identity) (hst : ∀ g, (f g).status = g.status) :
    Alike s (s.updateGoal i f hid hident) := by
  refine ⟨fun j => ?_, rfl, rfl⟩
  unfold Store.statusOf
  rw [Store.goal_updateGoal]
  split
  · cases s.goal j with
    | none => rfl
    | some g => exact hst g
  · rfl

theorem setLease {i : GoalId} {o : Option Text} {e : Option ℚ} {r : Option Text} :
    Alike s (s.setLease i o e r) := updateGoal _ _ fun _ => rfl

theorem refl : Alike s s := ⟨fun _ => rfl, rfl, rfl⟩

theorem claim {i : GoalId} {o : Text} {ttl now : ℚ} : Alike s (s.claim i o ttl now).1 := by
  unfold Store.claim
  split
  · exact refl
  · split
    · exact setLease
    · exact refl

theorem release {i : GoalId} {o : Text} : Alike s (s.release i o) := by
  unfold Store.release
  split
  · exact refl
  · split
    · exact setLease
    · exact refl

end Alike

theorem waiting_of_touched {s t : Store} {i : GoalId} (h : TouchedAt n s t i) (hs : Steady n s)
    (hrows : ∀ d ∈ t.decompositions, d.status = .accepted → d ∈ s.decompositions) : ¬ t.Waiting i := by
  intro hw
  obtain ⟨d, hd, hg, hacc, hproved⟩ := hw
  exact (hs.settled i).waiting ⟨d, hrows d hd hacc, hg, hacc, fun k hk => h.proved_iff.mp (hproved k hk)⟩

theorem settledAt_deferred {s t : Store} {i : GoalId} {ps : List (Text × Text)} {k : Option Sketch}
    (hs : Steady n s) (h : s.addDecomposition i ps k = .ok t) (hq : s.statusOf i ≠ .exhausted) :
    t.SettledAt n i := by
  have ht := touched_addDecomposition (n := n) h
  obtain ⟨u, ids, _, _, _, hatt, hdecs, _⟩ := addDecomposition_spec h
  refine ⟨?_, waiting_of_touched ht hs fun d hd hacc => ?_⟩
  · rw [ht.statusOf]
    by_cases hp : s.statusOf i = .proved
    · rw [hp, ht.kept ((hs.settled i).status ▸ hp)]
    · have hopen : s.statusOf i = .opened := by
        cases hst : s.statusOf i with
        | opened => rfl
        | proved => exact absurd hst hp
        | exhausted => exact absurd hst hq
      have hnot : s.derived n i ≠ .proved := (hs.settled i).status ▸ hp
      have hof : t.decompositionsOf i = s.decompositionsOf i ++
          [{ id := s.decompositions.length, goalId := i, subgoalIds := ids, sketch := k }] := by
        simp [Store.decompositionsOf, hdecs]
      have hattempts : t.attemptsOf i = s.attemptsOf i := by simp only [Store.attemptsOf, hatt]
      have hnot' : t.derived n i ≠ .proved := by
        intro hp'
        rw [derived_proved_iff, hattempts, hof] at hp'
        rw [Ne, derived_proved_iff] at hnot
        simp only [List.mem_append, List.mem_singleton, or_and_right, exists_or, exists_eq_left,
          reduceCtorEq, or_false] at hp'
        exact hnot hp'
      rw [hopen]
      unfold Store.derived at hnot' ⊢
      rw [Ne, goalStatusFrom_proved_iff, not_or] at hnot'
      unfold goalStatusFrom
      rw [if_neg hnot'.1, if_neg hnot'.2, if_pos]
      rw [hof]
      simp [liveDecompositions]
  · rw [hdecs] at hd
    cases List.mem_append.mp hd with
    | inl hd => exact hd
    | inr hd =>
      rw [List.mem_singleton.mp hd] at hacc
      simp at hacc

/-- The status a goal derives from everything but the decomposition `d` of it. -/
def Store.derivedWithout (s : Store) (maxAttempts : ℤ) (d : DecompositionRow) : GoalStatus :=
  goalStatusFrom ((s.attemptsOf d.goalId).map (·.outcome))
    (((s.decompositionsOf d.goalId).filter (·.id ≠ d.id)).map (·.status)) maxAttempts

theorem derived_of_live {s : Store} {d : DecompositionRow} (hd : d ∈ s.decompositions)
    (hlive : d.status ∈ liveDecompositions) : s.derived n d.goalId ≠ .exhausted := by
  have hany : ((s.decompositionsOf d.goalId).map (·.status)).any (· ∈ liveDecompositions) = true := by
    rw [List.any_eq_true]
    exact ⟨d.status, List.mem_map_of_mem (mem_decompositionsOf.mpr ⟨hd, rfl⟩), by simpa using hlive⟩
  unfold Store.derived goalStatusFrom
  rw [if_pos hany]
  split
  · simp
  · split <;> simp

theorem derived_rejected {s : Store} {k : DecompositionId} {d : DecompositionRow} {r : Text}
    (hd : s.decomposition k = some d) :
    (s.setDecompositionStatus k .rejectedByVerifier r).derived n d.goalId = s.derivedWithout n d := by
  have hid := Store.decomposition_id hd
  unfold Store.derived Store.derivedWithout
  refine goalStatusFrom_congr fun st hst => ?_
  simp only [List.mem_map, List.mem_filter, mem_decompositionsOf, decide_eq_true_eq]
  constructor
  · intro h
    obtain ⟨e, ⟨he, hg⟩, hs⟩ := h
    cases mem_decompositions_set hd he with
    | inl h =>
      rw [h] at hs
      exact absurd hs.symm hst
    | inr h => exact ⟨e, ⟨⟨h.1, hg⟩, hid ▸ h.2⟩, hs⟩
  · intro h
    obtain ⟨e, ⟨⟨he, hg⟩, hne⟩, hs⟩ := h
    exact ⟨e, ⟨mem_set_of_ne he (hid ▸ hne), hg⟩, hs⟩

theorem derivedWithout_proved {s : Store} {d : DecompositionRow} (h : s.derivedWithout n d = .proved) :
    s.derived n d.goalId = .proved := by
  unfold Store.derivedWithout at h
  rw [goalStatusFrom_proved_iff] at h
  rw [derived_proved_iff]
  simp only [List.mem_map, List.mem_filter] at h
  cases h with
  | inl h => exact Or.inl h
  | inr h =>
    obtain ⟨e, ⟨he, _⟩, hs⟩ := h
    exact Or.inr ⟨e, he, hs⟩

/-- A row rejected for want of a sketch leaves its goal OPEN if something else keeps it so. -/
theorem settledAt_unsketched {s : Store} {k : DecompositionId} {d : DecompositionRow} {r : Text}
    (hs : Steady n s) (hd : s.decomposition k = some d) (hp : d.status = .proposed)
    (hq : s.statusOf d.goalId = .opened → s.derivedWithout n d ≠ .exhausted) :
    (s.setDecompositionStatus k .rejectedByVerifier r).SettledAt n d.goalId := by
  have ht := touched_setStatus (n := n) hd (by simp [hp]) .rejectedByVerifier r
  have hsettled := (hs.settled d.goalId).status
  refine ⟨?_, waiting_of_touched ht hs fun e he hacc => ?_⟩
  · rw [ht.statusOf]
    cases hst : s.statusOf d.goalId with
    | proved =>
      rw [hst] at hsettled
      exact (ht.kept hsettled.symm).symm
    | exhausted =>
      rw [hst] at hsettled
      exact absurd hsettled.symm (derived_of_live (List.mem_of_getElem? hd) (by simp [hp, liveDecompositions]))
    | opened =>
      rw [derived_rejected hd]
      cases hwithout : s.derivedWithout n d with
      | opened => rfl
      | exhausted => exact absurd hwithout (hq hst)
      | proved =>
        rw [hst, derivedWithout_proved hwithout] at hsettled
        simp at hsettled
  · cases mem_decompositions_set hd he with
    | inl h =>
      rw [h] at hacc
      simp [DecompositionRow.withStatus] at hacc
    | inr h => exact h.1

end EvoHarness.Proof
