import EvoHarness.Controller
import EvoHarness.Ancestors

/-! What propagation can do to a store: statuses of goals change, ACCEPTED
decompositions complete, and everything else stands. -/
namespace EvoHarness.Proof
open PyText Hoare

def Goal.core (g : Goal) : Goal :=
  { g with status := .opened, exhaustedAtBudget := none, exhaustedAtSolver := none }

def DecompositionRow.core (d : DecompositionRow) : DecompositionRow := d.withStatus .proposed []

structure Advances (s t : Store) : Prop where
  attempts : t.attempts = s.attempts
  goals : t.goals.map Goal.core = s.goals.map Goal.core
  rows : t.decompositions.map DecompositionRow.core = s.decompositions.map DecompositionRow.core
  status : ∀ k d e, s.decomposition k = some d → t.decomposition k = some e →
    e.status = d.status ∨ (d.status = .accepted ∧ e.status = .completed)

namespace Advances
variable {s t u : Store}

theorem refl (s : Store) : Advances s s :=
  ⟨rfl, rfl, rfl, fun _ _ _ hd he => Or.inl (by rw [Option.some.inj (hd.symm.trans he)])⟩

theorem row_core (h : Advances s t) (k : DecompositionId) :
    (t.decomposition k).map DecompositionRow.core = (s.decomposition k).map DecompositionRow.core := by
  have := congrArg (·[k]?) h.rows
  simpa [Store.decomposition] using this

theorem row (h : Advances s t) {k : DecompositionId} {d : DecompositionRow}
    (hd : s.decomposition k = some d) : ∃ e, t.decomposition k = some e ∧ e.goalId = d.goalId ∧
      e.subgoalIds = d.subgoalIds ∧ e.sketch = d.sketch ∧
      (e.status = d.status ∨ (d.status = .accepted ∧ e.status = .completed)) := by
  have hc := h.row_core k
  rw [hd] at hc
  obtain ⟨e, he, hed⟩ := Option.map_eq_some_iff.mp hc
  refine ⟨e, he, congrArg (·.goalId) hed, congrArg (·.subgoalIds) hed, congrArg (·.sketch) hed, ?_⟩
  exact h.status k d e hd he

theorem row_back (h : Advances s t) {k : DecompositionId} {e : DecompositionRow}
    (he : t.decomposition k = some e) : ∃ d, s.decomposition k = some d ∧ e.goalId = d.goalId ∧
      e.subgoalIds = d.subgoalIds ∧ e.sketch = d.sketch ∧
      (e.status = d.status ∨ (d.status = .accepted ∧ e.status = .completed)) := by
  have hc := (h.row_core k).symm
  rw [he] at hc
  obtain ⟨d, hd, hde⟩ := Option.map_eq_some_iff.mp hc
  refine ⟨d, hd, (congrArg (·.goalId) hde).symm, (congrArg (·.subgoalIds) hde).symm,
    (congrArg (·.sketch) hde).symm, ?_⟩
  exact h.status k d e hd he

theorem trans (h₁ : Advances s t) (h₂ : Advances t u) : Advances s u where
  attempts := h₂.attempts.trans h₁.attempts
  goals := h₂.goals.trans h₁.goals
  rows := h₂.rows.trans h₁.rows
  status k d e hd he := by
    obtain ⟨c, hc, _, _, _, hdc⟩ := h₁.row hd
    have hce := h₂.status k c e hc he
    rcases hdc with hdc | ⟨hda, hcc⟩
    · exact hdc ▸ hce
    · rcases hce with hce | ⟨hca, _⟩
      · exact Or.inr ⟨hda, hce.trans hcc⟩
      · simp [hcc] at hca

theorem complete {k : DecompositionId} {d : DecompositionRow} (hd : s.decomposition k = some d)
    (ha : d.status = .accepted) (r : Text) : Advances s (s.setDecompositionStatus k .completed r) where
  attempts := rfl
  goals := rfl
  rows := map_withStatus (g := DecompositionRow.core) (fun _ => rfl) s.decompositions k
  status l c e hc he := by
    rw [Store.decomposition_setDecompositionStatus] at he
    split at he
    · next hkl =>
      subst hkl
      rw [hd, Option.map_some] at he
      obtain rfl := Option.some.inj he
      obtain rfl := Option.some.inj (hd.symm.trans hc)
      exact Or.inr ⟨ha, rfl⟩
    · exact Or.inl (by rw [Option.some.inj (hc.symm.trans he)])

theorem setGoalStatus (i : GoalId) (st : GoalStatus) (b : Option ℚ) (v : Option Text) :
    Advances s (s.setGoalStatus i st b v) where
  attempts := rfl
  goals := map_modify_of_eq (g := Goal.core)
    (f := fun g => { g with status := st, exhaustedAtBudget := b, exhaustedAtSolver := v })
    (fun _ => rfl) s.goals i
  rows := rfl
  status _ _ _ hd he := Or.inl (by rw [Option.some.inj (hd.symm.trans he)])

end Advances

variable {σ : Type} {α : Type} {P : World σ → Prop} {R : World σ → Prop}

theorem read_spec : Triple P (read : Ctl σ Store) (fun s w => P w ∧ w.store = s) R :=
  fun _ hw => ⟨hw, rfl⟩

theorem lookup_spec {e : Fault} {o : Option α} (hR : ∀ w, P w → R w) :
    Triple P (lookup e o : Ctl σ α) (fun a w => P w ∧ o = some a) R := by
  cases o with
  | none => exact Triple.raise hR
  | some a => exact Triple.pure fun w hw => ⟨hw, rfl⟩

theorem commit_spec {s : Store} {Q : Unit → World σ → Prop}
    (h : ∀ w, P w → Q () { w with store := s, history := ⟨s, w.validated⟩ :: w.history }) :
    Triple P (commit s) Q R :=
  Triple.modify h

theorem ask_spec {f : σ → α × σ} (hP : ∀ w e, P w → P { w with env := e }) :
    Triple P (ask f) (fun _ w => P w) R :=
  Triple.call fun w hw => hP w _ hw

end EvoHarness.Proof
