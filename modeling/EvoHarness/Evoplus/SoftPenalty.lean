import EvoHarness.Core.Selection
import Mathlib.Algebra.Order.GroupWithZero.Basic
import Mathlib.Logic.Function.Basic

/-! The soft penalty on parents whose children regress, among the weight policies of a parent selector. -/
namespace EvoHarness.Evoplus.SoftPenalty
open PyText Core.Population

structure RegressionSoftPenalty where
  decay : ℚ≥0
  floor : ℚ≥0
  streaks : Text → Option ℤ := fun _ => none
  decay_pos : 0 < decay
  decay_le : decay ≤ 1
  floor_pos : 0 < floor
  floor_le : floor ≤ 1

def credited (cand : Candidate) (store : List Candidate) : Option (Text × Bool) := do
  let parentId ← cand.parentId
  if parentId = [] then none
  else do
    let report ← cand.report
    let parent ← get store parentId
    let parentReport ← parent.report
    return (parentId, cand.passed && decide (parentReport.fitness < report.fitness))

namespace RegressionSoftPenalty

def onCandidateGraded (p : RegressionSoftPenalty) (cand : Candidate) (store : List Candidate) : RegressionSoftPenalty :=
  match credited cand store with
  | none => p
  | some (parentId, true) => { p with streaks := Function.update p.streaks parentId none }
  | some (parentId, false) =>
    { p with streaks := Function.update p.streaks parentId (some ((p.streaks parentId).getD 0 + 1)) }

def weightMultiplier (p : RegressionSoftPenalty) (cand : Candidate) : ℚ≥0 :=
  max p.floor (p.decay ^ (p.streaks cand.id).getD 0)

def setState (p : RegressionSoftPenalty) (saved : Text → Option ℤ) : RegressionSoftPenalty := { p with streaks := saved }

end RegressionSoftPenalty

inductive Event where
  | graded (cand : Candidate) (store : List Candidate)
  | restored (saved : Text → Option ℤ)

def step (p : RegressionSoftPenalty) : Event → RegressionSoftPenalty
  | .graded cand store => p.onCandidateGraded cand store
  | .restored saved => p.setState saved

def run (p : RegressionSoftPenalty) (es : List Event) : RegressionSoftPenalty := es.foldl step p

def policyMultiplier (policies : List (Candidate → ℚ≥0)) (cand : Candidate) : ℚ≥0 :=
  policies.foldl (fun m policy => m * policy cand) 1

/-- What the graded children of a parent showed, in order: whether each improved on it. -/
def children (parentId : Text) (graded : List (Candidate × List Candidate)) : List Bool :=
  graded.filterMap fun g => (credited g.1 g.2).bind fun c => if c.1 = parentId then some c.2 else none

def regressions (shown : List Bool) : ℕ := (shown.reverse.takeWhile (!·)).length

theorem step_fixed (p : RegressionSoftPenalty) (e : Event) : (step p e).decay = p.decay ∧ (step p e).floor = p.floor := by
  cases e with
  | restored saved => exact ⟨rfl, rfl⟩
  | graded cand store =>
    unfold step RegressionSoftPenalty.onCandidateGraded
    dsimp only
    split
    · exact ⟨rfl, rfl⟩
    · exact ⟨rfl, rfl⟩
    · exact ⟨rfl, rfl⟩

theorem run_fixed (p : RegressionSoftPenalty) (es : List Event) : (run p es).decay = p.decay ∧ (run p es).floor = p.floor := by
  induction es generalizing p with
  | nil => exact ⟨rfl, rfl⟩
  | cons e es ih =>
    obtain ⟨hdecay, hfloor⟩ := ih (step p e)
    obtain ⟨hdecay', hfloor'⟩ := step_fixed p e
    exact ⟨hdecay.trans hdecay', hfloor.trans hfloor'⟩

theorem weight_pos (p : RegressionSoftPenalty) (cand : Candidate) : 0 < p.weightMultiplier cand :=
  p.floor_pos.trans_le (le_max_left _ _)

section
variable {cfg : PopulationConfig} {f g : Candidate → ℚ≥0} {currentId : Option Text} {v : IslandView} {c : Candidate}

theorem policyMultiplier_pos_iff {policies : List (Candidate → ℚ≥0)} :
    0 < policyMultiplier policies c ↔ ∀ policy ∈ policies, 0 < policy c := by
  have hfold : ∀ m : ℚ≥0, 0 < policies.foldl (fun m policy => m * policy c) m ↔ 0 < m ∧ ∀ policy ∈ policies, 0 < policy c := by
    induction policies with
    | nil => exact fun m => (and_iff_left nofun).symm
    | cons policy policies ih =>
      intro m
      rw [List.foldl_cons, ih, List.forall_mem_cons, CanonicallyOrderedAdd.mul_pos, and_assoc]
  exact (hfold 1).trans (and_iff_right one_pos)

theorem mayPick_congr (h : ∀ c, 0 < f c ↔ 0 < g c) : MayPick cfg f currentId v c ↔ MayPick cfg g currentId v c := by
  have hmul (w : ℚ≥0) (d : Candidate) : 0 < w * f d ↔ 0 < w * g d := by
    rw [CanonicallyOrderedAdd.mul_pos, CanonicallyOrderedAdd.mul_pos, h d]
  have hzero (w : ℚ≥0) (d : Candidate) : w * f d = 0 ↔ w * g d = 0 := by
    rw [← not_iff_not, ← ne_eq, ← ne_eq, ← pos_iff_ne_zero, ← pos_iff_ne_zero, hmul]
  unfold MayPick
  cases cfg.strategy with
  | weighted => simp only [hmul, hzero]
  | powerLaw => simp only [hmul]
  | beam => exact Iff.rfl
  | seedOnly => exact Iff.rfl
  | latest => exact Iff.rfl

end

theorem regressions_append (shown : List Bool) (improved : Bool) :
    regressions (shown ++ [improved]) = if improved then 0 else regressions shown + 1 := by
  rw [regressions, List.reverse_append, List.reverse_singleton, List.singleton_append, List.takeWhile_cons]
  cases improved with
  | true => rfl
  | false => rfl

theorem streak_graded (p : RegressionSoftPenalty) (cand : Candidate) (store : List Candidate) (parentId : Text) :
    ((p.onCandidateGraded cand store).streaks parentId).getD 0 =
      match (credited cand store).bind fun c => if c.1 = parentId then some c.2 else none with
      | none => (p.streaks parentId).getD 0
      | some true => 0
      | some false => (p.streaks parentId).getD 0 + 1 := by
  unfold RegressionSoftPenalty.onCandidateGraded
  cases hcredited : credited cand store with
  | none => rfl
  | some c =>
    obtain ⟨creditedId, improved⟩ := c
    rw [Option.bind_some]
    by_cases hid : creditedId = parentId
    · subst hid
      rw [if_pos rfl]
      cases improved with
      | true => simp only [Function.update_self, Option.getD_none]
      | false => simp only [Function.update_self, Option.getD_some]
    · rw [if_neg hid]
      cases improved with
      | true => simp only [Function.update_of_ne (Ne.symm hid)]
      | false => simp only [Function.update_of_ne (Ne.symm hid)]

theorem streak_run (p : RegressionSoftPenalty) (hnew : p.streaks = fun _ => none) (graded : List (Candidate × List Candidate))
    (parentId : Text) :
    ((run p (graded.map fun g => .graded g.1 g.2)).streaks parentId).getD 0 = (regressions (children parentId graded) : ℤ) := by
  induction graded using List.reverseRecOn with
  | nil =>
    rw [List.map_nil, run, List.foldl_nil, hnew]
    rfl
  | append_singleton graded g ih =>
    have hrun : run p ((graded ++ [g]).map fun g => .graded g.1 g.2) =
        (run p (graded.map fun g => .graded g.1 g.2)).onCandidateGraded g.1 g.2 := by
      rw [List.map_append, run, List.foldl_append]
      rfl
    have hchildren : children parentId (graded ++ [g]) = children parentId graded ++
        ((credited g.1 g.2).bind fun c => if c.1 = parentId then some c.2 else none).toList := by
      rw [children, List.filterMap_append]
      rfl
    rw [hrun, streak_graded, hchildren, ih]
    cases (credited g.1 g.2).bind fun c => if c.1 = parentId then some c.2 else none with
    | none => rw [Option.toList_none, List.append_nil]
    | some improved =>
      rw [Option.toList_some, regressions_append]
      cases improved with
      | true => rfl
      | false => rfl

theorem sample_empty {cfg : PopulationConfig} {currentId : Option Text} {v : IslandView} (hpool : v.pool = []) (f g : Candidate → ℚ≥0)
    (draw : ℕ) : sample cfg f currentId v draw = sample cfg g currentId v draw := by
  unfold sample
  cases cfg.strategy with
  | weighted => simp only [hpool, if_true]
  | powerLaw => simp only [hpool, if_true]
  | beam => rfl
  | seedOnly => rfl
  | latest => rfl

/-- The penalty follows the children a parent had since the last that improved on it, and whatever was graded or
restored it takes no candidate from any strategy's choice: beside the other policies of a selector, the same candidates
may be sampled as without it. -/
theorem penalty_excludes_none (p : RegressionSoftPenalty) :
    (∀ (graded : List (Candidate × List Candidate)) (c : Candidate),
      (run { p with streaks := fun _ => none } (graded.map fun g => .graded g.1 g.2)).weightMultiplier c =
        max p.floor (p.decay ^ regressions (children c.id graded))) ∧
    ∀ (es : List Event) (before after : List (Candidate → ℚ≥0)) (cfg : PopulationConfig) (currentId : Option Text)
      (v : IslandView) (c : Candidate),
      (∃ draw, MayDraw cfg (policyMultiplier (before ++ (run p es).weightMultiplier :: after)) v draw ∧
          sample cfg (policyMultiplier (before ++ (run p es).weightMultiplier :: after)) currentId v draw = .parent c) ↔
        ∃ draw, MayDraw cfg (policyMultiplier (before ++ after)) v draw ∧
          sample cfg (policyMultiplier (before ++ after)) currentId v draw = .parent c := by
  refine ⟨fun graded c => ?_, fun es before after cfg currentId v c => ?_⟩
  · rw [RegressionSoftPenalty.weightMultiplier, streak_run _ rfl graded c.id, (run_fixed _ _).1, (run_fixed _ _).2, zpow_natCast]
  · by_cases hpool : v.pool = []
    · have hdraw (f : Candidate → ℚ≥0) (draw : ℕ) : MayDraw cfg f v draw := fun h => absurd hpool h
      simp only [hdraw, true_and, sample_empty hpool _ fun _ => 1]
    · rw [← mayPick_iff hpool, ← mayPick_iff hpool]
      refine mayPick_congr fun d => ?_
      rw [policyMultiplier_pos_iff, policyMultiplier_pos_iff, List.forall_mem_append, List.forall_mem_append,
        List.forall_mem_cons]
      have hpos := weight_pos (run p es) d
      constructor
      · rintro ⟨hbefore, -, hafter⟩
        exact ⟨hbefore, hafter⟩
      · rintro ⟨hbefore, hafter⟩
        exact ⟨hbefore, hpos, hafter⟩

end EvoHarness.Evoplus.SoftPenalty
