import EvoHarness.Propagate

/-! The lease table: who holds which goal, until when, and where that worker works. What
each write of the graph does to it. -/
namespace EvoHarness.Proof
open PyText Hoare

structure Lease where
  owner : Text
  expires : Option ℚ := none
  runDir : Option Text := none
  deriving DecidableEq

def Goal.lease (g : Goal) : Option Lease :=
  g.leaseOwner.map fun o => ⟨o, g.leaseExpiresAt, g.leaseRunDir⟩

def Lease.freeAt (l : Lease) (now : ℚ) : Prop := ∀ e, l.expires = some e → e ≤ now

theorem leaseFree_iff {g : Goal} {now : ℚ} :
    Store.leaseFree g now = true ↔ ∀ l, g.lease = some l → l.freeAt now := by
  unfold Store.leaseFree Goal.lease Lease.freeAt
  cases g.leaseOwner <;> cases g.leaseExpiresAt <;> simp

namespace Store
variable {s t : Store} {i j : GoalId}

def held (s : Store) (i : GoalId) : Option Lease := (s.goal i).bind Goal.lease

theorem held_setLease {o : Text} {e : Option ℚ} {r : Option Text} (hj : j < s.goals.length) :
    (s.setLease j (some o) e r).held i = if j = i then some ⟨o, e, r⟩ else s.held i := by
  unfold held setLease
  rw [goal_updateGoal]
  split
  · next h =>
    obtain ⟨g, hg⟩ := exists_goal (h ▸ hj)
    simp [hg, Goal.lease]
  · rfl

theorem held_clear {e : Option ℚ} {r : Option Text} :
    (s.setLease j none e r).held i = if j = i then none else s.held i := by
  unfold held setLease
  rw [goal_updateGoal]
  split
  · cases s.goal i <;> rfl
  · rfl

theorem held_forceRelease : (s.forceRelease j).held i = if j = i then none else s.held i :=
  held_clear

theorem held_noteAttemptDir {d : Text} : (s.noteAttemptDir j d).held i =
    if j = i then (s.held i).map fun l => { l with runDir := some d } else s.held i := by
  unfold held noteAttemptDir
  rw [goal_updateGoal]
  split
  · cases hg : s.goal i with
    | none => rfl
    | some g => cases ho : g.leaseOwner <;> simp [Goal.lease, ho]
  · rfl

theorem held_release {o : Text} : (s.release j o).held i =
    if j = i then (s.held i).filter (·.owner ≠ o) else s.held i := by
  unfold release
  cases hg : s.goal j with
  | none =>
    by_cases hji : j = i
    · subst hji
      simp [held, hg]
    · simp [hji]
  | some g =>
    by_cases ho : g.leaseOwner = some o
    · simp only [ho, if_true, held_clear]
      by_cases hji : j = i
      · subst hji
        simp [held, hg, Goal.lease, ho, Option.filter_some]
      · simp [hji]
    · simp only [ho, if_false]
      by_cases hji : j = i
      · subst hji
        cases hown : g.leaseOwner with
        | none => simp [held, hg, Goal.lease, hown]
        | some o' =>
          have hne : o' ≠ o := fun h => ho (hown.trans (congrArg some h))
          simp [held, hg, Goal.lease, hown, hne, Option.filter_some]
      · simp [hji]

theorem claim_cases (s : Store) (j : GoalId) (o : Text) (ttl now : ℚ) :
    (j < s.goals.length ∧ (∀ l, s.held j = some l → l.freeAt now) ∧
      s.claim j o ttl now = (s.setLease j (some o) (some (now + ttl)) none, true)) ∨
      s.claim j o ttl now = (s, false) := by
  unfold claim
  cases hg : s.goal j with
  | none => exact Or.inr rfl
  | some g =>
    by_cases hf : leaseFree g now = true
    · refine Or.inl ⟨goal_lt hg, ?_, by simp [hf]⟩
      simpa [held, hg] using leaseFree_iff.mp hf
    · exact Or.inr (by simp [hf])

structure SameLeases (s t : Store) : Prop where
  held : ∀ i, t.held i = s.held i
  attempts : t.attempts = s.attempts

theorem SameLeases.refl (s : Store) : SameLeases s s := ⟨fun _ => rfl, rfl⟩

theorem SameLeases.trans {u : Store} (h : SameLeases s t) (h' : SameLeases t u) : SameLeases s u :=
  ⟨fun i => (h'.held i).trans (h.held i), h'.attempts.trans h.attempts⟩

theorem sameLeases_setGoalStatus (s : Store) (j : GoalId) (st : GoalStatus) (b : Option ℚ) (v : Option Text) :
    SameLeases s (s.setGoalStatus j st b v) := by
  refine ⟨fun i => ?_, rfl⟩
  unfold held setGoalStatus
  rw [goal_updateGoal]
  split
  · cases s.goal i <;> rfl
  · rfl

theorem sameLeases_setDecompositionStatus (s : Store) (k : DecompositionId) (st : DecompositionStatus)
    (r : Text) : SameLeases s (s.setDecompositionStatus k st r) := ⟨fun _ => rfl, rfl⟩

theorem sameLeases_writeDecomposition {goalId : GoalId} {ps : List (Text × Text)} {k : Option Sketch}
    {st : DecompositionStatus} (hw : s.writeDecomposition goalId ps k st = .ok t) : SameLeases s t := by
  obtain ⟨u, ids, hgrow, _, _, hgoals, hatt, _⟩ := writeDecomposition_spec hw
  refine ⟨fun i => ?_, hatt⟩
  have hu : t.goal i = u.goal i := by simp only [goal, hgoals]
  unfold held
  rw [hu]
  cases hs : s.goal i with
  | some g => rw [hgrow.kept i g hs]
  | none =>
    cases hg : u.goal i with
    | none => rfl
    | some g =>
      cases hgrow.fresh i g hg with
      | inl h => simp [hs] at h
      | inr h => simp [Goal.lease, h.2.2]

theorem held_recordAttempt {a : Attempt} (hr : s.recordAttempt a = .ok t) (i : GoalId) :
    t.held i = s.held i := by
  obtain ⟨hgoals, _⟩ := recordAttempt_spec hr
  simp only [held, goal, hgoals]

end Store

/- Propagation writes statuses and nothing else: what every such write keeps, it keeps. The status it
gives a goal is the one the attempts on it and some statuses of its decompositions give. -/

section
variable {σ : Type} {P : Store → Prop} {n : ℤ} {attempts : List Attempt}
  (hrow : ∀ t k st r, P t → P (t.setDecompositionStatus k st r))
  (hatt : ∀ t, P t → t.attempts = attempts)
  (hgoal : ∀ t j ds b v, P t →
    P (t.setGoalStatus j (goalStatusFrom ((attempts.filter (·.goalId = j)).map (·.outcome)) ds n) b v))

theorem commit_holds {t u : Store} (h : P t → P u) :
    Triple (fun w : World σ => P w.store ∧ w.store = t) (commit u) (fun _ w => P w.store) (fun w => P w.store) := by
  refine commit_spec fun w hw => ?_
  obtain ⟨hw, rfl⟩ := hw
  exact h hw

include hrow in
theorem advance_holds (ds : List DecompositionRow) :
    Triple (fun w : World σ => P w.store) (advance ds) (fun _ w => P w.store) (fun w => P w.store) := by
  induction ds with
  | nil => exact Triple.pure fun _ h => h
  | cons d ds ih =>
    unfold advance
    refine Triple.bind read_spec fun t => ?_
    have hrest : ∀ st, Triple (fun w : World σ => P w.store) (do let rest ← advance ds; pure (st :: rest))
        (fun _ w => P w.store) (fun w => P w.store) :=
      fun st => Triple.bind ih fun _ => Triple.pure fun _ h => h
    by_cases hmove : decompositionStatusFrom d.status (d.subgoalIds.map t.statusOf) = d.status
    · simp only [hmove, ne_eq, not_true, if_false]
      exact (hrest _).weaken fun w hw => hw.1
    · simp only [hmove, ne_eq, not_false_eq_true, if_true]
      exact Triple.bind (commit_holds (hrow _ _ _ _)) fun _ => hrest _

include hrow hatt hgoal in
theorem visit_holds (b : ℚ) (v : Text) (i : GoalId) :
    Triple (fun w : World σ => P w.store) (visit n b v i) (fun _ w => P w.store) (fun w => P w.store) := by
  unfold visit
  refine Triple.bind read_spec fun t => ?_
  -- the attempts read are those of every state in which the status is written
  have hread : ∀ w : World σ, P w.store ∧ w.store = t → P t ∧ P w.store ∧ w.store = t := by
    intro w hw
    exact ⟨hw.2 ▸ hw.1, hw⟩
  refine (Triple.assume fun ht => ?_).weaken hread
  have hattempts : t.attemptsOf i = attempts.filter (·.goalId = i) := by rw [Store.attemptsOf, hatt t ht]
  refine Triple.bind (lookup_spec fun _ hw => hw.1) fun g => ?_
  refine Triple.bind ((advance_holds hrow _).weaken fun w hw => hw.1.1) fun statuses => ?_
  simp only [hattempts]
  by_cases hst : goalStatusFrom ((attempts.filter (·.goalId = i)).map (·.outcome)) statuses n = g.status
  · rw [if_pos hst]
    exact Triple.pure fun _ h => h
  · rw [if_neg hst]
    refine Triple.bind read_spec fun u => ?_
    have hparents : Triple (fun w : World σ => P w.store) (pure (u.parentsOf i) : Ctl σ (List GoalId))
        (fun _ w => P w.store) (fun w => P w.store) :=
      Triple.pure fun _ h => h
    split
    · exact Triple.bind (commit_holds (hgoal _ _ _ _ _)) fun _ => hparents
    · exact Triple.bind (commit_holds (hgoal _ _ _ _ _)) fun _ => hparents

include hrow hatt hgoal in
theorem propagateLoop_holds (b : ℚ) (v : Text) (fuel : ℕ) (pending : List GoalId) :
    Triple (fun w : World σ => P w.store) (propagateLoop n b v fuel pending) (fun _ w => P w.store)
      (fun w => P w.store) := by
  induction fuel generalizing pending with
  | zero => exact Triple.pure fun _ h => h
  | succ fuel ih =>
    cases pending with
    | nil => exact Triple.pure fun _ h => h
    | cons i pending =>
      unfold propagateLoop
      exact Triple.bind (visit_holds hrow hatt hgoal b v i) fun _ => ih _

include hrow hatt hgoal in
theorem propagate_holds (b : ℚ) (v : Text) (i : GoalId) :
    Triple (fun w : World σ => P w.store) (propagate n b v i) (fun _ w => P w.store) (fun w => P w.store) := by
  unfold propagate
  refine Triple.bind read_spec fun t => ?_
  refine Triple.bind ((propagateLoop_holds hrow hatt hgoal b v _ _).weaken fun w hw => hw.1) fun _ => ?_
  exact Triple.pure fun _ h => h

end

/-- The store after `propagate`, as one step of a worker. -/
def Store.propagated (s : Store) (maxAttempts : ℤ) (level : Text) (i : GoalId) : Store :=
  (propagate maxAttempts s.totalCost level i
    ({ store := s, env := () } : World Unit)).2.store

/-- What every write of a decomposition's status keeps, and every write of a status that the attempts and some
statuses of decompositions give. -/
theorem Store.propagated_derives {P : Store → Prop} {n : ℤ} {s : Store}
    (hrow : ∀ t k st r, P t → P (t.setDecompositionStatus k st r))
    (hgoal : ∀ t j ds b v, P t → P (t.setGoalStatus j (goalStatusFrom ((s.attemptsOf j).map (·.outcome)) ds n) b v))
    (hs : P s) (v : Text) (i : GoalId) : P (s.propagated n v i) := by
  have h := propagate_holds (σ := Unit) (P := fun t => P t ∧ t.attempts = s.attempts) (n := n)
    (fun t k st r ht => ⟨hrow t k st r ht.1, ht.2⟩) (fun _ ht => ht.2)
    (fun t j ds b v ht => ⟨hgoal t j ds b v ht.1, ht.2⟩) s.totalCost v i { store := s, env := () } ⟨hs, rfl⟩
  unfold Store.propagated
  split at h
  · next heq => rw [heq]; exact h.1
  · next heq => rw [heq]; exact h.1

theorem Store.propagated_holds {P : Store → Prop} (hrow : ∀ t k st r, P t → P (t.setDecompositionStatus k st r))
    (hgoal : ∀ t j st b v, P t → P (t.setGoalStatus j st b v)) {s : Store} (hs : P s) (n : ℤ) (v : Text)
    (i : GoalId) : P (s.propagated n v i) :=
  propagated_derives hrow (fun t j _ b v ht => hgoal t j _ b v ht) hs v i

theorem Store.sameLeases_propagated (s : Store) (n : ℤ) (v : Text) (i : GoalId) :
    SameLeases s (s.propagated n v i) :=
  propagated_holds (P := SameLeases s)
    (fun t k st r h => h.trans (sameLeases_setDecompositionStatus t k st r))
    (fun t j st b v h => h.trans (sameLeases_setGoalStatus t j st b v)) (.refl s) n v i

end EvoHarness.Proof
