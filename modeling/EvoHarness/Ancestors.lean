import EvoHarness.StoreFrames

/-! The upward walk is exact: it returns the identities of the proper ancestors. So a
decomposition keeps the graph acyclic exactly when it proposes none of them, nor the
goal itself. -/
namespace EvoHarness.Proof
open PyText Relation Dag
namespace Store

variable {s t : Store} {i j : GoalId}

theorem mem_parentsOf : j ∈ s.parentsOf i ↔ s.Sub j i := by
  simp only [parentsOf, List.mem_dedup, List.mem_map, List.mem_filter, decide_eq_true_eq, Sub]
  constructor
  · rintro ⟨d, ⟨hd, hi⟩, rfl⟩
    exact ⟨d, hd, rfl, hi⟩
  · rintro ⟨d, hd, rfl, hi⟩
    exact ⟨d, ⟨hd, hi⟩, rfl⟩

theorem identityOf_goal {g : Goal} (hg : s.goal i = some g) : s.identityOf i = g.identity := by
  simp [identityOf, hg]

theorem identityOf_inj (hi : i < s.goals.length) (hj : j < s.goals.length)
    (h : s.identityOf i = s.identityOf j) : i = j := by
  obtain ⟨g, hg⟩ := exists_goal hi
  obtain ⟨g', hg'⟩ := exists_goal hj
  rw [identityOf_goal hg, identityOf_goal hg'] at h
  exact identity_inj hg hg' h

theorem transGen_left_lt (h : TransGen s.Sub i j) : i < s.goals.length := by
  obtain ⟨_, hk, _⟩ := TransGen.head'_iff.mp h
  exact hk.left_lt

theorem frontier_ancestors (hi : i < s.goals.length) :
    (Search.explore s.identityOf s.parentsOf (s.goals.length + 1) ⟨[], [i]⟩).frontier = [] := by
  have hnext : ∀ x, ∀ y ∈ s.parentsOf x, y ∈ List.range s.goals.length :=
    fun x y hy => List.mem_range.mpr (mem_parentsOf.mp hy).left_lt
  have hinj : ∀ x ∈ List.range s.goals.length, ∀ y ∈ List.range s.goals.length,
      s.identityOf x = s.identityOf y → x = y :=
    fun x hx y hy h => identityOf_inj (List.mem_range.mp hx) (List.mem_range.mp hy) h
  have hstart := @Search.Exploring.init _ _ _ s.parentsOf _ _ _ (List.mem_range.mpr hi) hinj (Or.inl rfl)
  exact (Search.explore_spec hnext hinj _ _ hstart (by simp; omega)).2

theorem mem_ancestorIdentities (hi : i < s.goals.length) {a : Text} :
    a ∈ s.ancestorIdentities i ↔ ∃ j, TransGen s.Sub j i ∧ s.identityOf j = a := by
  have hedge : Search.Edge s.parentsOf = Function.swap s.Sub := by
    funext x y
    exact propext mem_parentsOf
  unfold ancestorIdentities
  rw [@Search.mem_explore_iff _ _ _ _ _ (List.range s.goals.length), hedge]
  · simp only [List.not_mem_nil, false_or, transGen_swap]
  · intro x y hy
    exact List.mem_range.mpr (mem_parentsOf.mp hy).left_lt
  · intro x hx y hy h
    exact identityOf_inj (List.mem_range.mp hx) (List.mem_range.mp hy) h
  · exact List.mem_range.mpr hi
  · exact Or.inl rfl
  · simp

/-- The identities the acyclicity check refuses: those of the goal and its ancestors. -/
theorem mem_refused (hi : i < s.goals.length) {a : Text} :
    a ∈ s.identityOf i :: s.ancestorIdentities i ↔
      ∃ j, ReflTransGen s.Sub j i ∧ s.identityOf j = a := by
  rw [List.mem_cons, mem_ancestorIdentities hi]
  constructor
  · rintro (rfl | ⟨j, hj, rfl⟩)
    · exact ⟨i, .refl, rfl⟩
    · exact ⟨j, hj.to_reflTransGen, rfl⟩
  · rintro ⟨j, hj, rfl⟩
    rcases reflTransGen_iff_eq_or_transGen.mp hj with h | h
    · exact Or.inl (h ▸ rfl)
    · exact Or.inr ⟨j, h, rfl⟩

theorem reflTransGen_left_lt (hi : i < s.goals.length) (h : ReflTransGen s.Sub j i) :
    j < s.goals.length := by
  rcases reflTransGen_iff_eq_or_transGen.mp h with rfl | h
  · exact hi
  · exact transGen_left_lt h

section write
variable {goalId : GoalId} {ps : List (Text × Text)} {k : Option Sketch} {st : DecompositionStatus}

/-- The write adds one fan of edges, from the goal to the rows of the proposed identities. -/
theorem sub_writeDecomposition (hg : goalId < s.goals.length)
    (hw : s.writeDecomposition goalId ps k st = .ok t) :
    ∃ ids : List GoalId, t.Sub = addFan s.Sub goalId (· ∈ ids) ∧
      ∀ j, j < s.goals.length → (j ∈ ids ↔ s.identityOf j ∈ ps.map Prod.fst) := by
  obtain ⟨u, ids, hgrow, hids, hrows, hgoals, _, hdecs⟩ := writeDecomposition_spec hw
  refine ⟨ids, ?_, ?_⟩
  · funext a b
    simp only [Sub, hdecs, List.mem_append, List.mem_singleton, addFan, eq_iff_iff]
    constructor
    · rintro ⟨d, hd | rfl, ha, hb⟩
      · exact Or.inl ⟨d, hd, ha, hb⟩
      · exact Or.inr ⟨ha.symm, hb⟩
    · rintro (⟨d, hd, ha, hb⟩ | ⟨rfl, hb⟩)
      · exact ⟨d, Or.inl hd, ha, hb⟩
      · exact ⟨_, Or.inr rfl, rfl, hb⟩
  · intro j hj
    obtain ⟨g, hgj⟩ := exists_goal hj
    have hu : u.identityOf j = s.identityOf j := by
      rw [identityOf_goal (hgrow.kept j g hgj), identityOf_goal hgj]
    rw [← hids, ← hu]
    constructor
    · exact fun h => List.mem_map_of_mem h
    · intro h
      obtain ⟨l, hl, hlj⟩ := List.mem_map.mp h
      obtain ⟨g', hg'⟩ := hrows l hl
      rwa [identityOf_inj (goal_lt hg') (hj.trans_le hgrow.length_le) hlj] at hl

/-- Written into an acyclic graph, a decomposition keeps it acyclic exactly when none of
its identities belongs, in that graph, to its goal or to an ancestor of it. -/
theorem acyclic_writeDecomposition_iff (hs : Acyclic s.Sub) (hg : goalId < s.goals.length)
    (hw : s.writeDecomposition goalId ps k st = .ok t) :
    Acyclic t.Sub ↔ ∀ a ∈ ps.map Prod.fst, a ∉ s.identityOf goalId :: s.ancestorIdentities goalId := by
  obtain ⟨ids, hsub, hids⟩ := sub_writeDecomposition hg hw
  rw [hsub, acyclic_addFan_iff hs]
  constructor
  · intro h a ha hmem
    obtain ⟨j, hj, rfl⟩ := (mem_refused hg).mp hmem
    exact h j ((hids j (reflTransGen_left_lt hg hj)).mpr ha) hj
  · intro h j hj hpath
    have hlt := reflTransGen_left_lt hg hpath
    exact h _ ((hids j hlt).mp hj) ((mem_refused hg).mpr ⟨j, hpath, rfl⟩)

end write

theorem acyclic_addDecomposition (hs : Acyclic s.Sub) {goalId : GoalId} {ps : List (Text × Text)}
    {k : Option Sketch} (ha : s.addDecomposition goalId ps k = .ok t) : Acyclic t.Sub := by
  unfold addDecomposition at ha
  split at ha
  · next hc =>
    unfold checkDecomposition at hc
    split at hc
    · simp at hc
    · split at hc
      · simp at hc
      · next parent hp =>
        rw [acyclic_writeDecomposition_iff hs (goal_lt hp) ha, identityOf_goal hp]
        exact checkAcyclic_ok_iff.mp hc
  · simp at ha

theorem addDecomposition_cycle {goalId : GoalId} {ps : List (Text × Text)} {k : Option Sketch}
    {p : Text × Text} (hp : p ∈ ps) (hj : ReflTransGen s.Sub j goalId)
    (hgoal : goalId < s.goals.length) (hid : s.identityOf j = p.1) :
    ∃ m, s.addDecomposition goalId ps k = .error (.cycleError m) := by
  obtain ⟨g, hg⟩ := exists_goal hgoal
  have hne : ps ≠ [] := List.ne_nil_of_mem hp
  have hmem : p.1 ∈ g.identity :: s.ancestorIdentities goalId := by
    rw [← identityOf_goal hg]
    exact (mem_refused hgoal).mpr ⟨j, hj, hid⟩
  unfold addDecomposition checkDecomposition
  simp only [hne, if_false, hg]
  rcases checkAcyclic_cases (g.identity :: s.ancestorIdentities goalId) (ps.map Prod.fst) with
    hok | ⟨m, hm⟩
  · exact absurd hmem (checkAcyclic_ok_iff.mp hok p.1 (List.mem_map_of_mem hp))
  · exact ⟨m, by rw [hm]⟩

end Store
end EvoHarness.Proof
