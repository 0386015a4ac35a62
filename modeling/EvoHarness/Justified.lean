import EvoHarness.Propagate

/-! Every PROVED goal has a justification, in every state a run of one process
commits. The invariant is read off the transactions one by one; the controller's
control flow only has to meet the transactions' conditions. -/
namespace EvoHarness.Proof
open PyText Hoare Relation Dag

def Grounded (s : Store) (i : GoalId) : Prop :=
  (∃ a ∈ s.attempts, a.goalId = i ∧ a.outcome = .proved) ∨
    ∃ d ∈ s.decompositions, d.goalId = i ∧ d.status = .completed

/-- `W` is what is known of every sketch that is recorded. -/
structure Sound (W : Sketch → Prop) (p : Snapshot) : Prop where
  acyclic : Acyclic p.store.Sub
  grounded : ∀ i, p.store.Proved i → Grounded p.store i
  closed : ∀ d ∈ p.store.decompositions, d.status = .completed →
    ∀ i ∈ d.subgoalIds, p.store.Proved i
  checked : ∀ d ∈ p.store.decompositions, d.status = .accepted ∨ d.status = .completed →
    d.id ∈ p.validated
  texts : ∀ a ∈ p.store.attempts, a.outcome = .proved → a.proofText.getD [] ≠ []
  sketched : ∀ d ∈ p.store.decompositions,
    ∃ k, d.sketch = some k ∧ k.subgoals.length = d.subgoalIds.length ∧ W k

variable {W : Sketch → Prop}

/-- A justification of `i` that passes through no goal of `path`, nor through any of
its own goals twice. -/
inductive Justified (p : Snapshot) : List GoalId → GoalId → Prop
  | attempt {path i} (a : Attempt) (hi : i ∉ path) (ha : a ∈ p.store.attempts)
      (hg : a.goalId = i) (hp : a.outcome = .proved) : Justified p path i
  | route {path i} (d : DecompositionRow) (hi : i ∉ path) (hd : d ∈ p.store.decompositions)
      (hg : d.goalId = i) (hc : d.status = .completed) (hv : d.id ∈ p.validated)
      (hp : ∀ j ∈ d.subgoalIds, p.store.Proved j)
      (hj : ∀ j ∈ d.subgoalIds, Justified p (i :: path) j) : Justified p path i

theorem Sound.justified {p : Snapshot} (h : Sound W p) {path : List GoalId} {i : GoalId}
    (hpath : ∀ k ∈ path, TransGen p.store.Sub k i) (hi : p.store.Proved i) :
    Justified p path i := by
  obtain ⟨rank, _, hrank⟩ := h.acyclic.exists_rank (Finset.range p.store.goals.length)
    fun a b hab => Finset.mem_range.mpr hab.right_lt
  induction hn : rank i using Nat.strong_induction_on generalizing i path with
  | _ n ih =>
    have hnot : i ∉ path := fun hmem => h.acyclic i (hpath i hmem)
    rcases h.grounded i hi with ⟨a, ha, hg, hp⟩ | ⟨d, hd, hg, hc⟩
    · exact .attempt a hnot ha hg hp
    · refine .route d hnot hd hg hc (h.checked d hd (Or.inr hc)) (h.closed d hd hc) ?_
      intro j hj
      have hsub : p.store.Sub i j := ⟨d, hd, hg, hj⟩
      refine ih (rank j) (hn ▸ hrank i j hsub) ?_ (h.closed d hd hc j hj) rfl
      intro k hk
      rcases List.mem_cons.mp hk with rfl | hk
      · exact TransGen.single hsub
      · exact (hpath k hk).tail hsub

namespace Sound
variable {s t : Store} {v : List DecompositionId}

theorem empty : Sound W ⟨Store.empty, []⟩ where
  acyclic i hi := by
    obtain ⟨_, h, _⟩ := TransGen.head'_iff.mp hi
    exact absurd h.left_lt (Nat.not_lt_zero _)
  grounded i hi := by
    obtain ⟨g, hg, _⟩ := hi
    exact absurd (Store.goal_lt hg) (Nat.not_lt_zero _)
  closed d hd := by simp [Store.empty] at hd
  checked d hd := by simp [Store.empty] at hd
  texts a ha := by simp [Store.empty] at ha
  sketched d hd := by simp [Store.empty] at hd

theorem mono {w : List DecompositionId} (h : Sound W ⟨s, v⟩) (hv : ∀ k ∈ v, k ∈ w) : Sound W ⟨s, w⟩ :=
  ⟨h.acyclic, h.grounded, h.closed, fun d hd hs => hv _ (h.checked d hd hs), h.texts, h.sketched⟩

theorem grow (h : Sound W ⟨s, v⟩) (hg : Store.GrowsBy s t) : Sound W ⟨t, v⟩ where
  acyclic := by rw [hg.sub]; exact h.acyclic
  grounded i hi := by
    unfold Grounded
    rw [hg.attempts, hg.decompositions]
    exact h.grounded i (hg.proved_iff.mp hi)
  closed d hd hc i hi :=
    hg.proved_iff.mpr (h.closed d (hg.decompositions ▸ hd) hc i hi)
  checked d hd hs := h.checked d (hg.decompositions ▸ hd) hs
  texts a ha := h.texts a (hg.attempts ▸ ha)
  sketched d hd := h.sketched d (hg.decompositions ▸ hd)

theorem addDecomposition (h : Sound W ⟨s, v⟩) {goalId : GoalId} {ps : List (Text × Text)}
    {k : Sketch} (ha : s.addDecomposition goalId ps (some k) = .ok t)
    (hlen : k.subgoals.length = ps.length) (hk : W k) : Sound W ⟨t, v⟩ := by
  have hac := Store.acyclic_addDecomposition h.acyclic ha
  unfold Store.addDecomposition at ha
  split at ha
  · obtain ⟨u, ids, hgrow, hids, _, hgoals, hatt, hdecs⟩ := Store.writeDecomposition_spec ha
    have hproved : ∀ i, t.Proved i ↔ s.Proved i := by
      intro i
      rw [← hgrow.proved_iff]
      simp only [Store.Proved, Store.goal, hgoals]
    have hold : ∀ d ∈ t.decompositions, d.status ≠ .proposed → d ∈ s.decompositions := by
      intro d hd hs
      rw [hdecs] at hd
      rcases List.mem_append.mp hd with hd | hd
      · exact hd
      · rw [List.mem_singleton.mp hd] at hs
        exact absurd rfl hs
    refine ⟨hac, ?_, ?_, ?_, fun a ha => h.texts a (hatt ▸ ha), ?_⟩
    · intro i hi
      rcases h.grounded i ((hproved i).mp hi) with ⟨a, ha, hg⟩ | ⟨d, hd, hg⟩
      · exact Or.inl ⟨a, hatt ▸ ha, hg⟩
      · exact Or.inr ⟨d, by rw [hdecs]; exact List.mem_append_left _ hd, hg⟩
    · intro d hd hc i hi
      exact (hproved i).mpr (h.closed d (hold d hd (by simp [hc])) hc i hi)
    · intro d hd hs
      exact h.checked d (hold d hd (by rcases hs with hs | hs <;> simp [hs])) hs
    · intro d hd
      simp only [hdecs] at hd
      rcases List.mem_append.mp hd with hd | hd
      · exact h.sketched d hd
      · rw [List.mem_singleton.mp hd]
        have hl := congrArg List.length hids
        simp only [List.length_map] at hl
        exact ⟨k, rfl, hlen.trans hl.symm, hk⟩
  · simp at ha

theorem setDecompositionStatus (h : Sound W ⟨s, v⟩) {k : DecompositionId} {st : DecompositionStatus}
    (r : Text) (hopen : ∀ d, s.decomposition k = some d → d.status ≠ .completed)
    (hacc : st = .accepted ∨ st = .completed → k ∈ v)
    (hcomp : st = .completed → ∀ d, s.decomposition k = some d → ∀ i ∈ d.subgoalIds, s.Proved i) :
    Sound W ⟨s.setDecompositionStatus k st r, v⟩ where
  acyclic := by
    refine h.acyclic.mono fun a b hab => ?_
    exact Store.sub_setDecompositionStatus.mp hab
  grounded i hi := by
    rcases h.grounded i hi with ha | ⟨d, hd, hg, hc⟩
    · exact Or.inl ha
    · obtain ⟨e, he, _, heg, _, _, hes⟩ :=
        @Store.exists_mem_setDecompositionStatus s k st r d hd
      have hdk : d.id ≠ k := by
        rintro rfl
        exact hopen d (Store.mem_decompositions_iff.mp hd) hc
      exact Or.inr ⟨e, he, heg.trans hg, by rw [hes, if_neg hdk, hc]⟩
  closed d hd hc i hi := by
    obtain ⟨e, he, hid, _, hsub, _, hst⟩ := Store.mem_setDecompositionStatus hd
    have hrow := Store.mem_decompositions_iff.mp he
    by_cases hdk : d.id = k
    · rw [if_pos hdk] at hst
      exact hcomp (hst.symm.trans hc) e (by rw [← hdk, ← hid]; exact hrow) i (hsub ▸ hi)
    · rw [if_neg hdk] at hst
      exact h.closed e he (hst.symm.trans hc) i (hsub ▸ hi)
  checked d hd hs := by
    obtain ⟨e, he, hid, _, _, _, hst⟩ := Store.mem_setDecompositionStatus hd
    by_cases hdk : d.id = k
    · rw [if_pos hdk] at hst
      exact hdk ▸ hacc (hst ▸ hs)
    · rw [if_neg hdk] at hst
      exact hid ▸ h.checked e he (hst ▸ hs)
  texts := h.texts
  sketched d hd := by
    obtain ⟨e, he, _, _, hsub, hsk, _⟩ := Store.mem_setDecompositionStatus hd
    rw [← hsub, ← hsk]
    exact h.sketched e he

theorem recordAttempt (h : Sound W ⟨s, v⟩) {a : Attempt} (hr : s.recordAttempt a = .ok t)
    (htext : a.outcome = .proved → a.proofText.getD [] ≠ []) : Sound W ⟨t, v⟩ := by
  obtain ⟨hgoals, hdecs, hatt, _⟩ := Store.recordAttempt_spec hr
  have hproved : ∀ i, t.Proved i ↔ s.Proved i := by
    intro i
    simp only [Store.Proved, Store.goal, hgoals]
  refine ⟨?_, ?_, ?_, ?_, ?_, fun d hd => h.sketched d (hdecs ▸ hd)⟩
  · have hsub : t.Sub = s.Sub := by
      unfold Store.Sub
      rw [hdecs]
    rw [hsub]
    exact h.acyclic
  · intro i hi
    rcases h.grounded i ((hproved i).mp hi) with ⟨b, hb, hg⟩ | ⟨d, hd, hg⟩
    · exact Or.inl ⟨b, by rw [hatt]; exact List.mem_append_left _ hb, hg⟩
    · exact Or.inr ⟨d, hdecs ▸ hd, hg⟩
  · exact fun d hd hc i hi => (hproved i).mpr (h.closed d (hdecs ▸ hd) hc i hi)
  · exact fun d hd hs => h.checked d (hdecs ▸ hd) hs
  · intro b hb
    simp only [hatt] at hb
    rcases List.mem_append.mp hb with hb | hb
    · exact h.texts b hb
    · rw [List.mem_singleton.mp hb]
      exact htext

theorem setGoalStatus (h : Sound W ⟨s, v⟩) {i : GoalId} {st : GoalStatus} (b : Option ℚ)
    (l : Option Text) (hup : s.Proved i → st = .proved) (hground : st = .proved → Grounded s i) :
    Sound W ⟨s.setGoalStatus i st b l, v⟩ where
  acyclic := h.acyclic
  grounded j hj := by
    rw [Store.proved_setGoalStatus] at hj
    split at hj
    · next hij => exact hij ▸ hground hj.2
    · exact h.grounded j hj
  closed d hd hc j hj := by
    have hold := h.closed d hd hc j hj
    rw [Store.proved_setGoalStatus]
    split
    · next hij =>
      obtain ⟨g, hg, hp⟩ := hold
      exact ⟨⟨g, hg⟩, hup (hij ▸ ⟨g, hg, hp⟩)⟩
    · exact hold
  checked := h.checked
  texts := h.texts
  sketched := h.sketched

theorem updateGoal (h : Sound W ⟨s, v⟩) {i : GoalId} {f : Goal → Goal} (hid : ∀ g, (f g).id = g.id)
    (hident : ∀ g, (f g).identity = g.identity) (hst : ∀ g, (f g).status = g.status) :
    Sound W ⟨s.updateGoal i f hid hident, v⟩ where
  acyclic := h.acyclic
  grounded j hj := h.grounded j ((Store.proved_updateGoal hid hident hst).mp hj)
  closed d hd hc j hj := (Store.proved_updateGoal hid hident hst).mpr (h.closed d hd hc j hj)
  checked := h.checked
  texts := h.texts
  sketched := h.sketched

theorem setLease (h : Sound W ⟨s, v⟩) (i : GoalId) (o : Option Text) (e : Option ℚ)
    (r : Option Text) : Sound W ⟨s.setLease i o e r, v⟩ := by
  unfold Store.setLease
  exact h.updateGoal _ _ fun _ => rfl

theorem claim (h : Sound W ⟨s, v⟩) (i : GoalId) (o : Text) (ttl now : ℚ) :
    Sound W ⟨(s.claim i o ttl now).1, v⟩ := by
  unfold Store.claim
  split
  · exact h
  · split
    · exact h.setLease ..
    · exact h

theorem release (h : Sound W ⟨s, v⟩) (i : GoalId) (o : Text) : Sound W ⟨s.release i o, v⟩ := by
  unfold Store.release
  split
  · exact h
  · split
    · exact h.setLease ..
    · exact h

end Sound

end EvoHarness.Proof
