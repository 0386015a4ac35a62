import EvoHarness.Upkeep
import EvoHarness.SolveLoop

/-! Outcomes that are no verdict on the goal: what they leave out of its status, and of the graph. -/
namespace EvoHarness.Proof
open PyText Runs

inductive Erased : List Attempt → List Attempt → Prop
  | nil : Erased [] []
  | keep (a : Attempt) {as kept : List Attempt} : Erased as kept → Erased (a :: as) (a :: kept)
  | drop {a : Attempt} {as kept : List Attempt} : a.outcome ∈ noVerdictOutcomes → Erased as kept →
      Erased (a :: as) kept

def Store.tried (s : Store) (i : GoalId) : ℕ := ((s.attemptsOf i).map (·.outcome)).countP (· ∈ capabilityOutcomes)

variable {as kept : List Attempt} {o : Outcome} {n : ℤ}

theorem not_capability (h : o ∈ noVerdictOutcomes) : o ∉ capabilityOutcomes := by
  revert h
  cases o <;> decide

theorem ne_proved_of_noVerdict (h : o ∈ noVerdictOutcomes) : o ≠ .proved := by
  revert h
  cases o <;> decide

theorem Erased.mem_proved (h : Erased as kept) : .proved ∈ kept.map (·.outcome) ↔ .proved ∈ as.map (·.outcome) := by
  induction h with
  | nil => rfl
  | keep a h ih => rw [List.map_cons, List.map_cons, List.mem_cons, List.mem_cons, ih]
  | drop ha h ih =>
    rw [ih, List.map_cons, List.mem_cons, or_iff_right]
    exact Ne.symm (ne_proved_of_noVerdict ha)

theorem Erased.countP (h : Erased as kept) :
    (kept.map (·.outcome)).countP (· ∈ capabilityOutcomes) = (as.map (·.outcome)).countP (· ∈ capabilityOutcomes) := by
  induction h with
  | nil => rfl
  | keep a h ih => rw [List.map_cons, List.map_cons, List.countP_cons, List.countP_cons, ih]
  | drop ha h ih =>
    rw [ih, List.map_cons, List.countP_cons_of_neg]
    simpa using not_capability ha

theorem Erased.goalStatusFrom (h : Erased as kept) (ds : List DecompositionStatus) (n : ℤ) :
    goalStatusFrom (kept.map (·.outcome)) ds n = goalStatusFrom (as.map (·.outcome)) ds n := by
  unfold Proof.goalStatusFrom
  simp only [h.mem_proved, h.countP]

theorem tried_of_exhausted {os : List Outcome} {ds : List DecompositionStatus} (h : goalStatusFrom os ds n = .exhausted) :
    0 < n ∧ n ≤ os.countP (· ∈ capabilityOutcomes) := by
  unfold goalStatusFrom at h
  split at h
  · cases h
  · split at h
    · cases h
    · split at h
      · cases h
      · dsimp only at h
        split at h
        · assumption
        · cases h

structure Tallied (n : ℤ) (s t : Store) : Prop where
  tried : ∀ i, s.tried i ≤ t.tried i
  exhausted : ∀ i, t.statusOf i = .exhausted → s.statusOf i ≠ .exhausted → 0 < n ∧ n ≤ t.tried i

structure Unrouted (n : ℤ) (s t : Store) : Prop extends Tallied n s t where
  rows : t.decompositions.length = s.decompositions.length

section
variable {s t : Store} {i : GoalId}

theorem tried_congr (h : t.attempts = s.attempts) : t.tried i = s.tried i := by
  unfold Store.tried Store.attemptsOf
  rw [h]

theorem Tallied.of_same (hatt : t.attempts = s.attempts) (hstatus : ∀ i, t.statusOf i = s.statusOf i) :
    Tallied n s t where
  tried _ := (tried_congr hatt).ge
  exhausted i h hs := absurd (hstatus i ▸ h) hs

theorem Alike.unrouted (h : Alike s t) : Unrouted n s t where
  toTallied := .of_same h.attempts h.statusOf
  rows := congrArg List.length h.decompositions

theorem unrouted_setDecompositionStatus (s : Store) (k : DecompositionId) (st : DecompositionStatus) (r : Text) :
    Unrouted n s (s.setDecompositionStatus k st r) where
  toTallied := .of_same rfl fun _ => rfl
  rows := List.length_modify ..

theorem alike_noteAttemptDir (s : Store) (i : GoalId) (dir : Text) : Alike s (s.noteAttemptDir i dir) :=
  Alike.updateGoal _ _ fun _ => rfl

theorem unrouted_recordAttempt {a : Attempt} (h : s.recordAttempt a = .ok t) : Unrouted n s t := by
  obtain ⟨hgoals, hdecs, hatt, -⟩ := Store.recordAttempt_spec h
  have hstatus : ∀ i, t.statusOf i = s.statusOf i := congrFun (Store.statusOf_congr hgoals)
  refine ⟨⟨?_, fun i hi hs => absurd (hstatus i ▸ hi) hs⟩, congrArg List.length hdecs⟩
  intro i
  unfold Store.tried Store.attemptsOf
  rw [hatt, List.filter_append, List.map_append, List.countP_append]
  exact Nat.le_add_right _ _

theorem tallied_writeDecomposition {ps : List (Text × Text)} {k : Option Sketch}
    (h : s.writeDecomposition i ps k = .ok t) : Tallied n s t := by
  obtain ⟨u, ids, hgrow, -, -, hgoals, hatt, -⟩ := Store.writeDecomposition_spec h
  apply Tallied.of_same hatt
  intro j
  rw [Store.statusOf_congr hgoals]
  exact hgrow.statusOf j

theorem statusOf_setGoalStatus {st : GoalStatus} {b : Option ℚ} {v : Option Text} {j : GoalId}
    (h : (s.setGoalStatus j st b v).statusOf i = .exhausted) : s.statusOf i = .exhausted ∨ (i = j ∧ st = .exhausted) := by
  unfold Store.statusOf Store.setGoalStatus at h
  rw [Store.goal_updateGoal] at h
  split at h
  · rename_i hj
    cases hg : s.goal i with
    | none =>
      rw [hg] at h
      cases h
    | some g =>
      rw [hg] at h
      exact Or.inr ⟨hj.symm, h⟩
  · exact Or.inl h

theorem unrouted_propagated (s : Store) (n : ℤ) (v : Text) (i : GoalId) : Unrouted n s (s.propagated n v i) := by
  have hkept : Unrouted n s (s.propagated n v i) ∧ (s.propagated n v i).attempts = s.attempts := by
    apply Store.propagated_derives (P := fun t => Unrouted n s t ∧ t.attempts = s.attempts)
    · intro t k st r h
      refine ⟨⟨⟨h.1.tried, h.1.exhausted⟩, ?_⟩, h.2⟩
      exact (unrouted_setDecompositionStatus (n := n) t k st r).rows.trans h.1.rows
    · intro t j ds b v h
      refine ⟨⟨⟨h.1.tried, ?_⟩, h.1.rows⟩, h.2⟩
      intro i hi hs
      cases statusOf_setGoalStatus hi with
      | inl hbefore => exact h.1.exhausted i hbefore hs
      | inr hset =>
        have htried := tried_of_exhausted hset.2
        have hsame : (t.setGoalStatus j (goalStatusFrom ((s.attemptsOf j).map (·.outcome)) ds n) b v).tried i = s.tried j := by
          rw [hset.1]
          exact tried_congr h.2
        rw [hsame]
        exact htried
    · exact ⟨Alike.refl.unrouted, rfl⟩
  exact hkept.1

end

namespace SolveLoop
variable {me : Party} {s s' : Store} {ph ph' : Phase} {a : Action}

theorem act_tallied (h : act me s ph a = some (s', ph')) :
    Unrouted me.maxCapabilityAttempts s s' ∨ (a = .write ∧ Tallied me.maxCapabilityAttempts s s') := by
  cases a with
  | write =>
    simp only [act] at h
    split at h
    · split at h
      · next hwrite =>
        rw [← (Prod.mk.inj (Option.some.inj h)).1]
        exact Or.inr ⟨rfl, tallied_writeDecomposition hwrite⟩
      · rw [← (Prod.mk.inj (Option.some.inj h)).1]
        exact Or.inl Alike.refl.unrouted
    · cases h
  | claim choice now =>
    have hclaim : Unrouted me.maxCapabilityAttempts s (s.claim choice.id me.owner me.leaseTtl now).1 := Alike.claim.unrouted
    simp only [act] at h
    repeat' split at h
    all_goals simp only [Option.some.injEq, Prod.mk.injEq, reduceCtorEq] at h
    all_goals
      rename_i heq
      rw [heq] at hclaim
      rw [← h.1]
      exact Or.inl hclaim
  | _ =>
    simp only [act] at h
    repeat' split at h
    all_goals simp only [Option.some.injEq, Prod.mk.injEq, reduceCtorEq] at h
    all_goals
      rw [← h.1]
      apply Or.inl
    all_goals first
      | exact Alike.refl.unrouted
      | exact unrouted_setDecompositionStatus ..
      | exact unrouted_recordAttempt (by assumption)
      | exact Alike.setLease.unrouted
      | exact unrouted_propagated ..
      | exact Alike.release.unrouted
      | exact (alike_noteAttemptDir ..).unrouted

def Action.within : Action → Bool
  | .claim _ _ | .answer _ | .release => false
  | _ => true

section
variable {ω : Type}

def Attacked (w : ω) (r : AttemptResult) (trace : List (ω × Action)) : Prop :=
  ∃ earlier later, trace = earlier ++ (w, .answer (.ok r)) :: later ∧ ∀ a, (w, a) ∈ later → a.within = true

def Failed (w : ω) (trace : List (ω × Action)) : Prop := ∃ r, Attacked w r trace ∧ r.outcome ∈ capabilityOutcomes

def Grounded (w : ω) (trace : List (ω × Action)) : Phase → Prop
  | .working _ _ (.returned r) | .working _ _ (.recorded r) => Attacked w r trace
  | .working _ _ (.asking _) | .working _ _ (.checking _ _) | .working _ _ (.writing _ _) => Failed w trace
  | _ => True

variable {w : ω} {r : AttemptResult} {trace : List (ω × Action)} {step : ω × Action}

theorem Attacked.snoc (h : Attacked w r trace) (hstep : ∀ a, step = (w, a) → a.within = true) :
    Attacked w r (trace ++ [step]) := by
  obtain ⟨earlier, later, heq, hlater⟩ := h
  refine ⟨earlier, later ++ [step], by rw [heq]; simp, ?_⟩
  intro a ha
  cases List.mem_append.mp ha with
  | inl ha => exact hlater a ha
  | inr ha => exact hstep a (List.mem_singleton.mp ha).symm

theorem Failed.snoc (h : Failed w trace) (hstep : ∀ a, step = (w, a) → a.within = true) : Failed w (trace ++ [step]) := by
  obtain ⟨r, hr, hout⟩ := h
  exact ⟨r, hr.snoc hstep, hout⟩

theorem Grounded.snoc (h : Grounded w trace ph) (hstep : ∀ a, step = (w, a) → a.within = true) :
    Grounded w (trace ++ [step]) ph := by
  unfold Grounded at h ⊢
  split
  · exact Attacked.snoc h hstep
  · exact Attacked.snoc h hstep
  · exact Failed.snoc h hstep
  · exact Failed.snoc h hstep
  · exact Failed.snoc h hstep
  · trivial

theorem Attacked.unique {r' : AttemptResult} (h : Attacked w r trace) (h' : Attacked w r' trace) : r = r' := by
  obtain ⟨earlier, later, heq, hlater⟩ := h
  obtain ⟨earlier', later', heq', hlater'⟩ := h'
  have hsame := heq.symm.trans heq'
  rw [List.append_eq_append_iff] at hsame
  cases hsame with
  | inl hsame =>
    obtain ⟨mid, -, hmid⟩ := hsame
    cases mid with
    | nil => simpa using (List.cons.inj hmid).1
    | cons c mid =>
      have hmem : (w, .answer (.ok r')) ∈ later := by
        rw [(List.cons.inj hmid).2]
        exact List.mem_append_right _ List.mem_cons_self
      exact absurd (hlater _ hmem) Bool.false_ne_true
  | inr hsame =>
    obtain ⟨mid, -, hmid⟩ := hsame
    cases mid with
    | nil => simpa using (List.cons.inj hmid).1.symm
    | cons c mid =>
      have hmem : (w, .answer (.ok r)) ∈ later' := by
        rw [(List.cons.inj hmid).2]
        exact List.mem_append_right _ List.mem_cons_self
      exact absurd (hlater' _ hmem) Bool.false_ne_true

theorem Failed.verdict (h : Failed w trace) (hr : Attacked w r trace) : r.outcome ∉ noVerdictOutcomes := by
  obtain ⟨r', hr', hout⟩ := h
  rw [hr.unique hr']
  exact fun hnone => not_capability hnone hout

theorem attacked_answer (w : ω) (r : AttemptResult) (trace : List (ω × Action)) :
    Attacked w r (trace ++ [(w, .answer (.ok r))]) :=
  ⟨trace, [], rfl, fun _ ha => absurd ha List.not_mem_nil⟩

/-- An attack that ended without a verdict, or with a proof, is the end of the iteration. -/
theorem grounded_afterAttempt {l : Loop} {j : Job} (h : Attacked w r trace) :
    Grounded w trace (.working (afterAttempt me l r).1 j (afterAttempt me l r).2) := by
  unfold afterAttempt
  split
  · split
    · trivial
    · trivial
  · split
    · trivial
    · rename_i hverdict hproved
      refine ⟨r, h, ?_⟩
      revert hverdict hproved
      cases r.outcome <;> decide

theorem grounded_nextStale (gs : List Goal) : Grounded w trace (Phase.nextStale gs) := by
  cases gs with
  | nil => trivial
  | cons g gs => trivial

theorem grounded_afterDecomposition {l : Loop} {j : Job} {first ok : Bool} :
    Grounded w trace (.working l j (afterDecomposition first ok)) := by
  unfold afterDecomposition
  split
  · trivial
  · trivial

/-- With `decompose_root_first` off, what a controller does within an iteration rests on what went before. -/
theorem grounded_within (hoff : me.decomposeRootFirst = false) (h : act me s ph a = some (s', ph'))
    (ha : a.within = true) (hph : Grounded w trace ph) : Grounded w trace ph' := by
  cases a with
  | decide =>
    simp only [act, hoff, Bool.false_eq_true, false_and, if_false] at h
    split at h
    · rw [← (Prod.mk.inj (Option.some.inj h)).2]
      trivial
    · cases h
  | answer result => cases ha
  | claim choice now => cases ha
  | release => cases ha
  | _ =>
    simp only [act] at h
    repeat' split at h
    all_goals simp only [Option.some.injEq, Prod.mk.injEq, reduceCtorEq] at h
    all_goals rw [← h.2]
    all_goals first
      | exact hph
      | trivial
      | exact grounded_nextStale _
      | exact grounded_afterAttempt hph
      | exact grounded_afterDecomposition

theorem act_grounded (hoff : me.decomposeRootFirst = false) (h : act me s ph a = some (s', ph'))
    (hph : Grounded w trace ph) : Grounded w (trace ++ [(w, a)]) ph' := by
  by_cases ha : a.within = true
  · apply (grounded_within hoff h ha hph).snoc
    intro b hb
    rw [← (Prod.mk.inj hb).2]
    exact ha
  · cases a with
    | answer result =>
      simp only [act] at h
      split at h
      · split at h
        · rw [← (Prod.mk.inj (Option.some.inj h)).2]
          exact attacked_answer ..
        · rw [← (Prod.mk.inj (Option.some.inj h)).2]
          trivial
      · cases h
    | claim choice now =>
      simp only [act] at h
      repeat' split at h
      all_goals simp only [Option.some.injEq, Prod.mk.injEq, reduceCtorEq] at h
      all_goals
        rw [← h.2]
        trivial
    | release =>
      simp only [act] at h
      split at h
      · rw [← (Prod.mk.inj (Option.some.inj h)).2]
        split
        · trivial
        · trivial
      · cases h
    | _ => exact absurd rfl ha

end

section
variable {ω : Type} [DecidableEq ω] {party : ω → Party} {net t u : Net ω} {trace : List (ω × Action)}

theorem step_grounded (hoff : ∀ w, (party w).decomposeRootFirst = false) {l : ω × Action} (h : step party net l = some t)
    (hnet : ∀ w, Grounded w trace (net.phase w)) : ∀ w, Grounded w (trace ++ [l]) (t.phase w) := by
  obtain ⟨s, ph, hact, -, hphase, -⟩ := step_cases h
  intro w
  rw [hphase]
  by_cases hw : w = l.1
  · rw [hw, Function.update_self]
    exact act_grounded (hoff l.1) hact (hnet l.1)
  · rw [Function.update_of_ne hw]
    apply (hnet w).snoc
    intro a ha
    exact absurd (congrArg Prod.fst ha).symm hw

theorem run_grounded (hoff : ∀ w, (party w).decomposeRootFirst = false) {steps : List (ω × Action)}
    (hrun : run (step party) net steps = some t) (hnet : ∀ w, Grounded w trace (net.phase w)) :
    ∀ w, Grounded w (trace ++ steps) (t.phase w) := by
  induction steps generalizing net trace with
  | nil =>
    rw [run_nil, Option.some.injEq] at hrun
    rw [List.append_nil, ← hrun]
    exact hnet
  | cons l steps ih =>
    obtain ⟨u, hu, hrest⟩ := run_cons.mp hrun
    have hlater := ih hrest (step_grounded hoff hu hnet)
    rw [List.append_assoc, List.singleton_append] at hlater
    exact hlater

/-- What an outcome without a verdict leaves as it is, in the state a run has reached and in the step after it. -/
structure Inert (party : ω → Party) (trace : List (ω × Action)) (t : Net ω) : Prop where
  /-- Deleting such attempts from a history leaves the status it gives. -/
  status : ∀ i kept, Erased (t.store.attemptsOf i) kept → ∀ ds n,
    goalStatusFrom (kept.map (·.outcome)) ds n = goalStatusFrom ((t.store.attemptsOf i).map (·.outcome)) ds n
  /-- A decomposition is asked for in an iteration whose attack said that the goal is hard, and in no other. -/
  proposed : ∀ w sketch u, step party t (w, .propose sketch) = some u →
    Failed w trace ∧ ∀ r, Attacked w r trace → r.outcome ∉ noVerdictOutcomes
  /-- A goal becomes EXHAUSTED by attempts that said so. -/
  exhausted : ∀ l u, step party t l = some u → ∀ i, u.store.statusOf i = .exhausted → t.store.statusOf i ≠ .exhausted →
    0 < (party l.1).maxCapabilityAttempts ∧ (party l.1).maxCapabilityAttempts ≤ u.store.tried i
  /-- So does an iteration that adds a decomposition. -/
  added : ∀ l u, step party t l = some u → u.store.decompositions.length ≠ t.store.decompositions.length → Failed l.1 trace

theorem failed_of_propose {w : ω} {sketch : Option Sketch} (h : step party net (w, .propose sketch) = some t)
    (hnet : Grounded w trace (net.phase w)) : Failed w trace := by
  obtain ⟨s, ph, hact, -⟩ := step_cases h
  simp only [act] at hact
  split at hact
  · rename_i hphase
    rw [hphase] at hnet
    exact hnet
  · cases hact

theorem failed_of_write {w : ω} (h : step party net (w, .write) = some t) (hnet : Grounded w trace (net.phase w)) :
    Failed w trace := by
  obtain ⟨s, ph, hact, -⟩ := step_cases h
  simp only [act] at hact
  split at hact
  · rename_i hphase
    rw [hphase] at hnet
    exact hnet
  · cases hact

/-- In every run of controllers that do not decompose the root first, outcomes without a verdict are inert. -/
theorem no_verdict_inert (hoff : ∀ w, (party w).decomposeRootFirst = false) (s : Store) (steps : List (ω × Action))
    (t : Net ω) (hrun : run (step party) (start s) steps = some t) : Inert party steps t := by
  have hstart : ∀ w, Grounded w [] ((start s : Net ω).phase w) := fun _ => trivial
  have hgrounded : ∀ w, Grounded w steps (t.phase w) := run_grounded hoff hrun hstart
  refine ⟨fun _ _ h => h.goalStatusFrom, ?_, ?_, ?_⟩
  · intro w sketch u h
    have hfailed := failed_of_propose h (hgrounded w)
    exact ⟨hfailed, fun _ hr => hfailed.verdict hr⟩
  · intro l u h i hexhausted hbefore
    obtain ⟨s', ph, hact, hstore, -⟩ := step_cases h
    rw [hstore] at hexhausted ⊢
    cases act_tallied hact with
    | inl hquiet => exact hquiet.exhausted i hexhausted hbefore
    | inr hwrite => exact hwrite.2.exhausted i hexhausted hbefore
  · intro l u h hrows
    obtain ⟨s', ph, hact, hstore, -⟩ := step_cases h
    rw [hstore] at hrows
    cases act_tallied hact with
    | inl hquiet => exact absurd hquiet.rows hrows
    | inr hwrite =>
      obtain ⟨w, a⟩ := l
      have ha : a = .write := hwrite.1
      rw [ha] at h
      exact failed_of_write h (hgrounded w)

end

def interruptedRun : List (Fin 2 × Action) :=
  [(workerA, .recover), (workerA, .scan 0), (workerA, .enter 0 1 9), (workerA, .check), (workerA, .read),
    (workerA, .claim theGoal 0), (workerA, .decide), (workerA, .attack),
    (workerA, .answer (.ok (AttemptResult.interrupted none []))), (workerA, .record), (workerA, .propagate)]

theorem no_verdict_inert_interrupted : ∃ t, run (step twoParties) (start oneGoal) interruptedRun = some t ∧
    Inert twoParties interruptedRun t := by
  have hruns : (run (step twoParties) (start oneGoal) interruptedRun).isSome = true := by decide +kernel
  obtain ⟨t, ht⟩ := Option.isSome_iff_exists.mp hruns
  exact ⟨t, ht, no_verdict_inert (fun _ => rfl) oneGoal interruptedRun t ht⟩

end SolveLoop
end EvoHarness.Proof
