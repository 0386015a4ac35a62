import EvoHarness.Store
import EvoHarness.Library.Acyclic

/-! What each transaction changes, and what it leaves alone. -/
namespace EvoHarness.Proof
open PyText
namespace Store

def Sub (s : Store) (p c : GoalId) : Prop := ∃ d ∈ s.decompositions, d.goalId = p ∧ c ∈ d.subgoalIds

def Proved (s : Store) (id : GoalId) : Prop := ∃ g, s.goal id = some g ∧ g.status = .proved

variable {s t : Store} {i j : GoalId} {g h : Goal}

theorem goal_id (hg : s.goal i = some g) : g.id = i := by
  have h := congrArg (·[i]?) s.goal_ids
  simp only [List.getElem?_map] at h
  rw [show s.goals[i]? = some g from hg] at h
  have hlt : i < s.goals.length := List.getElem?_eq_some_iff.mp hg |>.1
  simpa [List.getElem?_range hlt] using h

theorem goal_lt (hg : s.goal i = some g) : i < s.goals.length :=
  (List.getElem?_eq_some_iff.mp hg).1

theorem exists_goal (hi : i < s.goals.length) : ∃ g, s.goal i = some g :=
  ⟨s.goals[i], List.getElem?_eq_getElem hi⟩

theorem mem_goals_iff : g ∈ s.goals ↔ s.goal g.id = some g := by
  constructor
  · intro hg
    obtain ⟨i, hi⟩ := List.mem_iff_getElem?.mp hg
    have := goal_id (s := s) hi
    exact this ▸ hi
  · exact fun hg => List.mem_of_getElem? hg

theorem identity_inj (hg : s.goal i = some g) (hh : s.goal j = some h)
    (he : g.identity = h.identity) : i = j := by
  have hi : (s.goals.map (·.identity))[i]? = some g.identity := by
    simp [show s.goals[i]? = some g from hg]
  have hj : (s.goals.map (·.identity))[j]? = some g.identity := by
    simp [show s.goals[j]? = some h from hh, he]
  have hlt : i < (s.goals.map (·.identity)).length := by simpa using goal_lt hg
  exact (List.getElem?_inj hlt s.identity_unique).mp (hi.trans hj.symm)

theorem decomposition_id {d : DecompositionRow} {k : DecompositionId}
    (hd : s.decomposition k = some d) : d.id = k := by
  have h := congrArg (·[k]?) s.decomposition_ids
  simp only [List.getElem?_map] at h
  rw [show s.decompositions[k]? = some d from hd] at h
  have hlt : k < s.decompositions.length := (List.getElem?_eq_some_iff.mp hd).1
  simpa [List.getElem?_range hlt] using h

theorem mem_decompositions_iff {d : DecompositionRow} :
    d ∈ s.decompositions ↔ s.decomposition d.id = some d := by
  constructor
  · intro hd
    obtain ⟨k, hk⟩ := List.mem_iff_getElem?.mp hd
    have := decomposition_id (s := s) hk
    exact this ▸ hk
  · exact fun hd => List.mem_of_getElem? hd

theorem decomposition_goal_lt {d : DecompositionRow} (hd : d ∈ s.decompositions) :
    d.goalId < s.goals.length :=
  s.decomposition_goal _ (List.mem_map_of_mem hd)

theorem subgoal_lt {d : DecompositionRow} (hd : d ∈ s.decompositions) (hi : i ∈ d.subgoalIds) :
    i < s.goals.length :=
  s.subgoal_goal _ (List.mem_map_of_mem (f := fun d => d.subgoalIds) hd) i hi

theorem Sub.left_lt (hs : s.Sub i j) : i < s.goals.length := by
  obtain ⟨d, hd, rfl, _⟩ := hs
  exact decomposition_goal_lt hd

theorem Sub.right_lt (hs : s.Sub i j) : j < s.goals.length := by
  obtain ⟨d, hd, _, hj⟩ := hs
  exact subgoal_lt hd hj

@[simp] theorem insertGoal_decompositions (a b : Text) :
    (s.insertGoal a b).decompositions = s.decompositions := by
  unfold insertGoal; split <;> rfl

@[simp] theorem insertGoal_attempts (a b : Text) : (s.insertGoal a b).attempts = s.attempts := by
  unfold insertGoal; split <;> rfl

theorem goal_insertGoal {a b : Text} (hg : (s.insertGoal a b).goal i = some g) :
    s.goal i = some g ∨ (a ∉ s.goals.map (·.identity) ∧
      g = { id := s.goals.length, identity := a, statement := b }) := by
  unfold insertGoal at hg
  split at hg
  · exact Or.inl hg
  · next h =>
    simp only [goal, List.getElem?_append] at hg
    split at hg
    · exact Or.inl hg
    · refine Or.inr ⟨h, ?_⟩
      cases hn : i - s.goals.length with
      | zero => simpa [hn] using hg.symm
      | succ n => simp [hn] at hg

theorem goal_insertGoal_of_goal {a b : Text} (hg : s.goal i = some g) :
    (s.insertGoal a b).goal i = some g := by
  unfold insertGoal
  split
  · exact hg
  · rw [goal, List.getElem?_append_left (goal_lt hg)]
    exact hg

theorem mem_identities_insertGoal (a b : Text) :
    a ∈ (s.insertGoal a b).goals.map (·.identity) := by
  unfold insertGoal
  split
  · next h => exact h
  · simp

section update
variable {f : Goal → Goal} {hid : ∀ g, (f g).id = g.id}
  {hident : ∀ g, (f g).identity = g.identity}

theorem goal_updateGoal :
    (s.updateGoal j f hid hident).goal i = if j = i then (s.goal i).map f else s.goal i := by
  simp only [goal, updateGoal, List.getElem?_modify]
  split <;> simp

@[simp] theorem updateGoal_length :
    (s.updateGoal j f hid hident).goals.length = s.goals.length := by simp [updateGoal]

theorem proved_updateGoal (hid : ∀ g, (f g).id = g.id) (hident : ∀ g, (f g).identity = g.identity)
    (hst : ∀ g, (f g).status = g.status) :
    (s.updateGoal j f hid hident).Proved i ↔ s.Proved i := by
  unfold Proved
  rw [goal_updateGoal]
  split
  · cases s.goal i <;> simp [hst]
  · rfl

end update

theorem proved_setGoalStatus {st : GoalStatus} {b : Option ℚ} {v : Option Text} :
    (s.setGoalStatus j st b v).Proved i ↔
      if j = i then (∃ g, s.goal i = some g) ∧ st = .proved else s.Proved i := by
  unfold Proved setGoalStatus
  rw [goal_updateGoal]
  split
  · cases s.goal i <;> simp
  · rfl

theorem decomposition_setDecompositionStatus {k l : DecompositionId} {st : DecompositionStatus}
    {r : Text} : (s.setDecompositionStatus k st r).decomposition l =
      if k = l then (s.decomposition l).map (.withStatus st r) else s.decomposition l := by
  simp only [decomposition, setDecompositionStatus, List.getElem?_modify]
  split <;> simp

theorem mem_setDecompositionStatus {k : DecompositionId} {st : DecompositionStatus} {r : Text}
    {d : DecompositionRow} (hd : d ∈ (s.setDecompositionStatus k st r).decompositions) :
    ∃ e ∈ s.decompositions, e.id = d.id ∧ e.goalId = d.goalId ∧ e.subgoalIds = d.subgoalIds ∧
      e.sketch = d.sketch ∧ d.status = if d.id = k then st else e.status := by
  have h := mem_decompositions_iff.mp hd
  rw [decomposition_setDecompositionStatus] at h
  split at h
  · next hk =>
    obtain ⟨e, he, rfl⟩ := Option.map_eq_some_iff.mp h
    refine ⟨e, List.mem_of_getElem? he, rfl, rfl, rfl, rfl, ?_⟩
    simp only [hk, if_true]
    rfl
  · next hk => exact ⟨d, List.mem_of_getElem? h, rfl, rfl, rfl, rfl, by simp [Ne.symm hk]⟩

theorem exists_mem_setDecompositionStatus {k : DecompositionId} {st : DecompositionStatus} {r : Text}
    {e : DecompositionRow} (he : e ∈ s.decompositions) :
    ∃ d ∈ (s.setDecompositionStatus k st r).decompositions, d.id = e.id ∧ d.goalId = e.goalId ∧
      d.subgoalIds = e.subgoalIds ∧ d.sketch = e.sketch ∧
      d.status = if e.id = k then st else e.status := by
  have h := mem_decompositions_iff.mp he
  by_cases hk : k = e.id
  · refine ⟨e.withStatus st r, ?_, rfl, rfl, rfl, rfl, by simp [hk, DecompositionRow.withStatus]⟩
    refine List.mem_of_getElem? (i := e.id) ?_
    have := @decomposition_setDecompositionStatus s k e.id st r
    rw [if_pos hk, h] at this
    exact this
  · refine ⟨e, ?_, rfl, rfl, rfl, rfl, by simp [Ne.symm hk]⟩
    refine List.mem_of_getElem? (i := e.id) ?_
    have := @decomposition_setDecompositionStatus s k e.id st r
    rw [if_neg hk, h] at this
    exact this

theorem sub_setDecompositionStatus {k : DecompositionId} {st : DecompositionStatus} {r : Text} :
    (s.setDecompositionStatus k st r).Sub i j ↔ s.Sub i j := by
  constructor
  · rintro ⟨d, hd, rfl, hj⟩
    obtain ⟨e, he, _, hg, hs, _⟩ := mem_setDecompositionStatus hd
    exact ⟨e, he, hg, hs ▸ hj⟩
  · rintro ⟨e, he, rfl, hj⟩
    obtain ⟨d, hd, _, hg, hs, _⟩ := @exists_mem_setDecompositionStatus s k st r e he
    exact ⟨d, hd, hg, hs ▸ hj⟩

/-- `t` has the rows of `s`, perhaps with more OPEN goals. -/
structure GrowsBy (s t : Store) : Prop where
  decompositions : t.decompositions = s.decompositions
  attempts : t.attempts = s.attempts
  kept : ∀ i g, s.goal i = some g → t.goal i = some g
  fresh : ∀ i g, t.goal i = some g →
    s.goal i = some g ∨ (s.goal i = none ∧ g.status = .opened ∧ g.leaseOwner = none)

theorem GrowsBy.refl (s : Store) : GrowsBy s s := ⟨rfl, rfl, fun _ _ => id, fun _ _ => Or.inl⟩

theorem GrowsBy.trans {u : Store} (h₁ : GrowsBy s t) (h₂ : GrowsBy t u) : GrowsBy s u where
  decompositions := h₂.decompositions.trans h₁.decompositions
  attempts := h₂.attempts.trans h₁.attempts
  kept i g hg := h₂.kept i g (h₁.kept i g hg)
  fresh i g hg := by
    rcases h₂.fresh i g hg with hg | ⟨hn, ho⟩
    · exact h₁.fresh i g hg
    · refine Or.inr ⟨?_, ho⟩
      cases hs : s.goal i with
      | none => rfl
      | some g' => rw [h₁.kept i g' hs] at hn; simp at hn

theorem GrowsBy.insertGoal (s : Store) (a b : Text) : GrowsBy s (s.insertGoal a b) where
  decompositions := insertGoal_decompositions a b
  attempts := insertGoal_attempts a b
  kept _ _ := goal_insertGoal_of_goal
  fresh i g hg := by
    cases hs : s.goal i with
    | some g' =>
      have := goal_insertGoal_of_goal (a := a) (b := b) hs
      exact Or.inl (this.symm.trans hg)
    | none =>
      rcases goal_insertGoal hg with h | ⟨_, rfl⟩
      · simp [hs] at h
      · exact Or.inr ⟨rfl, rfl, rfl⟩

theorem GrowsBy.proved_iff (h : GrowsBy s t) : t.Proved i ↔ s.Proved i := by
  constructor
  · rintro ⟨g, hg, hp⟩
    rcases h.fresh i g hg with hg | ⟨_, ho, _⟩
    · exact ⟨g, hg, hp⟩
    · simp [ho] at hp
  · rintro ⟨g, hg, hp⟩
    exact ⟨g, h.kept i g hg, hp⟩

theorem GrowsBy.length_le (h : GrowsBy s t) : s.goals.length ≤ t.goals.length := by
  by_contra hlt
  obtain ⟨g, hg⟩ := exists_goal (s := s) (i := t.goals.length) (Nat.lt_of_not_le hlt)
  exact absurd (goal_lt (h.kept _ _ hg)) (lt_irrefl _)

theorem GrowsBy.sub (h : GrowsBy s t) : t.Sub = s.Sub := by
  unfold Sub
  rw [h.decompositions]

theorem idOf_spec {a : Text} (ha : a ∈ s.goals.map (·.identity)) :
    ∃ g, s.goal (s.idOf a) = some g ∧ g.identity = a := by
  obtain ⟨g, hg, rfl⟩ := List.mem_map.mp ha
  have hlt : s.idOf g.identity < s.goals.length :=
    List.findIdx_lt_length_of_exists ⟨g, hg, by simp⟩
  refine ⟨s.goals[s.idOf g.identity], List.getElem?_eq_getElem hlt, ?_⟩
  exact of_decide_eq_true (List.findIdx_getElem (w := hlt))

theorem insertSubgoals_spec (s : Store) (ps : List (Text × Text)) :
    GrowsBy s (s.insertSubgoals ps).1 ∧
      (s.insertSubgoals ps).2.map (s.insertSubgoals ps).1.identityOf = ps.map Prod.fst ∧
      ∀ i ∈ (s.insertSubgoals ps).2, ∃ g, (s.insertSubgoals ps).1.goal i = some g := by
  induction ps generalizing s with
  | nil => exact ⟨.refl s, rfl, by simp [insertSubgoals]⟩
  | cons p ps ih =>
    obtain ⟨a, b⟩ := p
    obtain ⟨hgrow, hids, hrows⟩ := ih (s.insertGoal a b)
    obtain ⟨g, hg, rfl⟩ := idOf_spec (mem_identities_insertGoal (s := s) a b)
    have hg' := hgrow.kept _ _ hg
    refine ⟨(GrowsBy.insertGoal s _ b).trans hgrow, ?_, ?_⟩
    · simp only [insertSubgoals, List.map_cons, hids]
      congr 1
      simp only [identityOf, hg', Option.map_some, Option.getD_some]
    · intro i hi
      rcases List.mem_cons.mp hi with rfl | hi
      · exact ⟨g, hg'⟩
      · exact hrows i hi

theorem writeDecomposition_spec {goalId : GoalId} {ps : List (Text × Text)} {k : Option Sketch}
    {st : DecompositionStatus} (hw : s.writeDecomposition goalId ps k st = .ok t) :
    ∃ u ids, GrowsBy s u ∧ ids.map u.identityOf = ps.map Prod.fst ∧
      (∀ i ∈ ids, ∃ g, u.goal i = some g) ∧ t.goals = u.goals ∧ t.attempts = s.attempts ∧
      t.decompositions = s.decompositions ++
        [{ id := s.decompositions.length, goalId, subgoalIds := ids, status := st, sketch := k }] := by
  obtain ⟨hgrow, hids, hrows⟩ := insertSubgoals_spec s ps
  unfold writeDecomposition insertDecomposition at hw
  simp only at hw
  split at hw
  · next s' hs' =>
    split at hs'
    · obtain rfl := Option.some.inj hs'
      obtain rfl := Except.ok.inj hw
      refine ⟨_, _, hgrow, hids, hrows, rfl, hgrow.attempts, ?_⟩
      simp [hgrow.decompositions]
    · simp at hs'
  · simp at hw

theorem writeDecomposition_ok {goalId : GoalId} (hg : goalId < s.goals.length)
    (ps : List (Text × Text)) (k : Option Sketch) (st : DecompositionStatus) :
    ∃ t, s.writeDecomposition goalId ps k st = .ok t := by
  obtain ⟨hgrow, _, hrows⟩ := insertSubgoals_spec s ps
  have hlt : ∀ i ∈ (s.insertSubgoals ps).2, i < (s.insertSubgoals ps).1.goals.length := by
    intro i hi
    obtain ⟨g, hg⟩ := hrows i hi
    exact goal_lt hg
  have h : goalId < (s.insertSubgoals ps).1.goals.length ∧
      ∀ i ∈ (s.insertSubgoals ps).2, i < (s.insertSubgoals ps).1.goals.length :=
    ⟨hg.trans_le hgrow.length_le, hlt⟩
  unfold writeDecomposition insertDecomposition
  simp only [dif_pos h]
  exact ⟨_, rfl⟩

theorem recordAttempt_spec {a : Attempt} (hr : s.recordAttempt a = .ok t) :
    t.goals = s.goals ∧ t.decompositions = s.decompositions ∧
      t.attempts = s.attempts ++ [{ a with id := s.attempts.length }] ∧ a.goalId < s.goals.length := by
  unfold recordAttempt at hr
  split at hr
  · next h =>
    obtain rfl := Except.ok.inj hr
    exact ⟨rfl, rfl, rfl, h⟩
  · simp at hr

theorem recordAttempt_ok {a : Attempt} (h : a.goalId < s.goals.length) :
    ∃ t, s.recordAttempt a = .ok t := by
  unfold recordAttempt
  simp only [dif_pos h]
  exact ⟨_, rfl⟩

end Store
end EvoHarness.Proof
