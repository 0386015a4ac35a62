import EvoHarness.SolveLoop
import EvoHarness.NoFalseProved

/-! Which goals the solver is set on and the decomposition source is asked about, when
several controllers run `solve` on one graph. -/
namespace EvoHarness.Proof.SolveLoop
open PyText Runs

def Attackable (s : Store) (i : GoalId) : Prop :=
  (∃ g, s.goal i = some g ∧ g.status = .opened) ∧
    ∀ d ∈ s.decompositionsOf i, d.status ∉ liveDecompositions

def OnlyOpen {ω : Type} (net : Net ω) : Prop := ∀ j ∈ net.calls, Attackable j.claimedAt j.goal

/-- From the read of the candidates to the claim, the goal's status stood, and it got no live
decomposition it did not have. -/
structure Job.Unmoved (j : Job) : Prop where
  status : (j.claimedAt.goal j.goal).map (·.status) = (j.readAt.goal j.goal).map (·.status)
  live : ∀ d ∈ j.claimedAt.decompositionsOf j.goal, d.status ∈ liveDecompositions →
    ∃ e ∈ j.readAt.decompositionsOf j.goal, e.id = d.id ∧ e.status ∈ liveDecompositions

def CallsUnmoved {ω : Type} (net : Net ω) (l : ω × Action) : Prop :=
  ∀ j, callOf (net.phase l.1) l.2 = some j → j.Unmoved

theorem attackable_of_actionable {s : Store} {scope : List GoalId} {g : Goal}
    (hg : g ∈ actionableGoals s scope) : Attackable s g.id := by
  simp only [actionableGoals, Store.openGoals, List.mem_filter, decide_eq_true_eq, Bool.and_eq_true,
    Bool.not_eq_true'] at hg
  obtain ⟨⟨hmem, hopen⟩, _, hlive⟩ := hg
  refine ⟨⟨g, Store.mem_goals_iff.mp hmem, hopen⟩, fun d hd hst => ?_⟩
  have := List.any_eq_false.mp hlive d hd
  simp [hst] at this

/-- What stood attackable at the read is attackable at the claim exactly if it did not move. -/
theorem Job.unmoved_iff {j : Job} (h : Attackable j.readAt j.goal) : j.Unmoved ↔ Attackable j.claimedAt j.goal := by
  obtain ⟨⟨g, hg, hopen⟩, hnone⟩ := h
  constructor
  · intro hu
    refine ⟨?_, fun d hd hst => ?_⟩
    · have hst := hu.status
      rw [hg, Option.map_some, hopen] at hst
      exact Option.map_eq_some_iff.mp hst
    · obtain ⟨e, he, _, hlive⟩ := hu.live d hd hst
      exact hnone e he hlive
  · intro hc
    obtain ⟨⟨g', hg', hopen'⟩, hnone'⟩ := hc
    exact ⟨by simp [hg, hg', hopen, hopen'], fun d hd hst => absurd hst (hnone' d hd)⟩

def Phase.Read : Phase → Prop
  | .choosing _ seen candidates => ∀ c ∈ candidates, Attackable seen c.id
  | .working _ j _ => Attackable j.readAt j.goal
  | _ => True

theorem read_of_next {gs : List Goal} : (Phase.nextStale gs).Read := by
  cases gs <;> trivial

theorem act_read {me : Party} {s s' : Store} {ph ph' : Phase} {a : Action}
    (h : act me s ph a = some (s', ph')) (hr : ph.Read) : ph'.Read := by
  cases a with
  | read =>
    simp only [act] at h
    split at h
    · split at h
      · simp only [Option.some.injEq, Prod.mk.injEq] at h
        exact h.2 ▸ trivial
      · simp only [Option.some.injEq, Prod.mk.injEq] at h
        exact h.2 ▸ fun c hc => attackable_of_actionable hc
    · simp at h
  | claim choice now =>
    simp only [act] at h
    split at h
    · next l seen candidates =>
      split at h
      · next hmem =>
        split at h
        · simp only [Option.some.injEq, Prod.mk.injEq] at h
          exact h.2 ▸ hr choice hmem
        · simp only [Option.some.injEq, Prod.mk.injEq] at h
          exact h.2 ▸ fun c hc => hr c (List.mem_filter.mp hc).1
      · simp at h
    · simp at h
  | _ =>
    -- the others keep the job in hand, or end with none
    simp only [act] at h
    repeat' split at h
    all_goals simp only [Option.some.injEq, Prod.mk.injEq, reduceCtorEq] at h
    all_goals obtain ⟨_, rfl⟩ := h
    all_goals first
      | exact hr
      | exact read_of_next
      | trivial

variable {ω : Type} [DecidableEq ω] {party : ω → Party}

theorem read_step (net : Net ω) (l : ω × Action) (t : Net ω) (hr : ∀ w, (net.phase w).Read)
    (h : step party net l = some t) (w : ω) : (t.phase w).Read := by
  obtain ⟨s, ph, hact, _, hph, _⟩ := step_cases h
  rw [hph]
  by_cases hw : w = l.1
  · subst hw
    rw [Function.update_self]
    exact act_read hact (hr l.1)
  · rw [Function.update_of_ne hw]
    exact hr w

theorem read_of_call {ph : Phase} {a : Action} {j : Job} (hr : ph.Read) (h : callOf ph a = some j) :
    Attackable j.readAt j.goal := by
  unfold callOf at h
  split at h
  · exact Option.some.inj h ▸ hr
  · exact Option.some.inj h ▸ hr
  · simp at h

theorem onlyOpen_step_iff (net : Net ω) (l : ω × Action) (t : Net ω) (hr : ∀ w, (net.phase w).Read)
    (hopen : OnlyOpen net) (h : step party net l = some t) : OnlyOpen t ↔ CallsUnmoved net l := by
  obtain ⟨s, ph, _, _, _, hcalls⟩ := step_cases h
  unfold OnlyOpen CallsUnmoved
  rw [hcalls]
  constructor
  · intro ht j hj
    have hin : j ∈ (callOf (net.phase l.1) l.2).toList ++ net.calls := by simp [hj]
    exact (Job.unmoved_iff (read_of_call (hr l.1) hj)).mpr (ht j hin)
  · intro hu j hj
    cases List.mem_append.mp hj with
    | inl hj =>
      have hcall : callOf (net.phase l.1) l.2 = some j := Option.mem_toList.mp hj
      exact (Job.unmoved_iff (read_of_call (hr l.1) hcall)).mp (hu j hcall)
    | inr hj => exact hopen j hj

/-- On every interleaving, the solver and the decomposition source are called only for goals that
could be attacked when they were claimed, exactly when no goal they are called for has moved
between the read of the candidates and the claim. -/
theorem only_open_iff_unmoved (party : ω → Party) (s : Store) (ls : List (ω × Action)) :
    Everywhere (step party) OnlyOpen (start s) ls ↔ Meets (step party) CallsUnmoved (start s) ls :=
  everywhere_iff_meets (J := fun net => ∀ w, (net.phase w).Read) read_step onlyOpen_step_iff
    (fun _ => trivial) fun _ hj => absurd hj List.not_mem_nil

def Phase.Still (s : Store) : Phase → Prop
  | .choosing _ seen _ => seen = s
  | .working _ j _ => j.Unmoved
  | _ => True

theorem still_of_next {s : Store} {gs : List Goal} : (Phase.nextStale gs).Still s := by
  cases gs <;> trivial

theorem act_still {me : Party} {s s' : Store} {ph ph' : Phase} {a : Action}
    (h : act me s ph a = some (s', ph')) (hs : ph.Still s) : ph'.Still s' := by
  cases a with
  | claim choice now =>
    simp only [act] at h
    split at h
    · next l seen candidates =>
      obtain rfl : seen = s := hs
      split at h
      · split at h
        · simp only [Option.some.injEq, Prod.mk.injEq] at h
          exact h.2 ▸ ⟨rfl, fun d hd hlive => ⟨d, hd, rfl, hlive⟩⟩
        · next hclaim =>
          simp only [Option.some.injEq, Prod.mk.injEq] at h
          obtain ⟨rfl, rfl⟩ := h
          cases seen.claim_cases choice.id me.owner me.leaseTtl now with
          | inl hc =>
            rw [hc.2.2] at hclaim
            simp at hclaim
          | inr hc =>
            rw [hc] at hclaim
            exact (Prod.mk.inj hclaim).1
      · simp at h
    · simp at h
  | _ =>
    simp only [act] at h
    repeat' split at h
    all_goals simp only [Option.some.injEq, Prod.mk.injEq, reduceCtorEq] at h
    all_goals obtain ⟨rfl, rfl⟩ := h
    all_goals first
      | exact hs
      | exact still_of_next
      | trivial

theorem unmoved_of_call {s : Store} {ph : Phase} {a : Action} {j : Job} (hs : ph.Still s)
    (h : callOf ph a = some j) : j.Unmoved := by
  unfold callOf at h
  split at h
  · exact Option.some.inj h ▸ hs
  · exact Option.some.inj h ▸ hs
  · simp at h

/-- A controller that runs alone calls only for goals that can be attacked. -/
theorem only_open_alone (party : ω → Party) (w : ω) (s : Store) (as : List Action) :
    Everywhere (step party) OnlyOpen (start s) (as.map fun a => (w, a)) := by
  refine (everywhere_iff_meets (J := fun net => ∀ w, (net.phase w).Read) read_step onlyOpen_step_iff
    (fun _ => trivial) fun _ hj => absurd hj List.not_mem_nil).mpr ?_
  have hmeets : ∀ net : Net ω, (net.phase w).Still net.store →
      Meets (step party) CallsUnmoved net (as.map fun a => (w, a)) := by
    induction as with
    | nil => exact fun _ _ => trivial
    | cons a as ih =>
      intro net hs t ht
      obtain ⟨s', ph, hact, hstore, hph, _⟩ := step_cases ht
      refine ⟨fun j hj => unmoved_of_call hs hj, ih t ?_⟩
      rw [hph, hstore, Function.update_self]
      exact act_still hact hs
  exact hmeets (start s) trivial

/-- Both read their candidates; the first claims, proves and releases the goal; then the second
claims it, since the lease is free, and attacks. -/
def attackedAgain : List (Fin 2 × Action) :=
  [(workerA, .recover), (workerA, .scan 0), (workerA, .enter 0 1 9), (workerA, .check), (workerA, .read),
    (workerB, .recover), (workerB, .scan 0), (workerB, .enter 0 1 9), (workerB, .check), (workerB, .read),
    (workerA, .claim theGoal 0), (workerA, .decide), (workerA, .attack), (workerA, .answer (.ok trivialProof)), (workerA, .record),
    (workerA, .propagate), (workerA, .release), (workerB, .claim theGoal 0), (workerB, .decide), (workerB, .attack)]

theorem proved_goal_attacked : ¬ Everywhere (step twoParties) OnlyOpen (start oneGoal) attackedAgain := by
  intro h
  obtain ⟨t, ht, hend⟩ : ∃ t, run (step twoParties) (start oneGoal) attackedAgain = some t ∧
      t.calls.map (fun j => (j.claimedAt.goal j.goal).map (·.status)) = [some .proved, some .opened] := by
    have hrun : (run (step twoParties) (start oneGoal) attackedAgain).map
        (fun t => t.calls.map fun j => (j.claimedAt.goal j.goal).map (·.status)) =
          some [some .proved, some .opened] := by
      decide +kernel
    exact Option.map_eq_some_iff.mp hrun
  cases hcalls : t.calls with
  | nil => simp [hcalls] at hend
  | cons j js =>
    obtain ⟨⟨g, hg, hopen⟩, _⟩ := everywhere_last h ht j (by simp [hcalls])
    simp [hcalls, hg, hopen] at hend

end EvoHarness.Proof.SolveLoop
