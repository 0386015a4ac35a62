import EvoHarness.Core.Selection
import EvoHarness.Library.Shares
import Mathlib.Logic.Function.Basic

/-! Adaptive operator scheduling: a soft bandit over the operators, whose rewards are the gains of children. -/
namespace EvoHarness.Evoplus.Bandit
open PyText Core.Population

/-- `np.exp`, as far as the shares need it: it may round down to zero. -/
structure Exponential where
  exp : ℚ → ℚ
  nonneg : ∀ x, 0 ≤ exp x
  zero : exp 0 = 1
  mono : Monotone exp

structure OperatorBandit where
  operators : List Text
  floor : ℚ
  temperature : ℚ
  decay : ℚ
  ema : Text → ℚ := fun _ => 0
  n : Text → ℕ := fun _ => 0
  nonempty : operators ≠ []
  floor_nonneg : 0 ≤ floor * operators.length
  floor_lt : floor * operators.length < 1

/-- What `state` gives, or a checkpoint has; a missing field has no key. -/
structure Saved where
  ema : Text → Option ℚ
  n : Text → Option ℕ

namespace OperatorBandit

variable (E : Exponential)

/-- The operators to draw from with their probabilities, or `none` where the maximum of no scores raises. -/
def probabilities (b : OperatorBandit) (hasInspirations : Bool) : Option (List Text × List ℚ) :=
  let ops := b.operators.filter fun op => hasInspirations || op ≠ "recombine".toList
  let scores := ops.map fun op => b.ema op / b.temperature
  match scores.max? with
  | none => none
  | some top =>
    let weights := scores.map fun s => E.exp (s - top)
    let soft := Shares.proportional weights
    let floor := min b.floor (1 / ops.length)
    some (ops, Shares.proportional (Shares.floored floor soft))

def reward? (cand : Candidate) (store : List Candidate) : Option ℚ := do
  let parentId ← cand.parentId
  if parentId = [] then none
  else do
    let report ← cand.report
    let parent ← get store parentId
    let parentReport ← parent.report
    return report.fitness - parentReport.fitness

def onCandidateGraded (b : OperatorBandit) (operator : Text) (cand : Candidate) (store : List Candidate) : OperatorBandit :=
  if operator ∈ b.operators then
    match reward? cand store with
    | none => b
    | some reward =>
      { b with
        ema := Function.update b.ema operator (b.decay * b.ema operator + (1 - b.decay) * reward)
        n := Function.update b.n operator (b.n operator + 1) }
  else b

def state (b : OperatorBandit) : Saved where
  ema op := if op ∈ b.operators then some (b.ema op) else none
  n op := if op ∈ b.operators then some (b.n op) else none

def setState (b : OperatorBandit) (saved : Saved) : OperatorBandit :=
  { b with
    ema := fun op => if op ∈ b.operators then (saved.ema op).getD (b.ema op) else b.ema op
    n := fun op => if op ∈ b.operators then (saved.n op).getD (b.n op) else b.n op }

end OperatorBandit

inductive Event where
  | graded (operator : Text) (cand : Candidate) (store : List Candidate)
  | restored (saved : Saved)

def step (b : OperatorBandit) : Event → OperatorBandit
  | .graded operator cand store => b.onCandidateGraded operator cand store
  | .restored saved => b.setState saved

def run (b : OperatorBandit) (es : List Event) : OperatorBandit := es.foldl step b

section
variable {E : Exponential} {b : OperatorBandit}

theorem floor_ops {ops : List Text} (hsub : ops.Sublist b.operators) (hne : ops ≠ []) :
    min b.floor (1 / ops.length) = b.floor ∧ b.floor * ops.length ≤ 1 := by
  have hoperators : (0 : ℚ) < b.operators.length := by exact_mod_cast List.length_pos_of_ne_nil b.nonempty
  have hops : (0 : ℚ) < ops.length := by exact_mod_cast List.length_pos_of_ne_nil hne
  have hlength : (ops.length : ℚ) ≤ b.operators.length := by exact_mod_cast hsub.length_le
  have hfloor : 0 ≤ b.floor := nonneg_of_mul_nonneg_left b.floor_nonneg hoperators
  have hle : b.floor * ops.length ≤ 1 := (mul_le_mul_of_nonneg_left hlength hfloor).trans b.floor_lt.le
  exact ⟨min_eq_left ((le_div_iff₀ hops).mpr hle), hle⟩

theorem weights_sum_pos {scores : List ℚ} {top : ℚ} (h : scores.max? = some top) :
    (∀ w ∈ scores.map fun s => E.exp (s - top), 0 ≤ w) ∧ 0 < (scores.map fun s => E.exp (s - top)).sum := by
  have hnonneg : ∀ w ∈ scores.map fun s => E.exp (s - top), 0 ≤ w := by
    intro w hw
    obtain ⟨s, -, rfl⟩ := List.mem_map.mp hw
    exact E.nonneg _
  have htop : (1 : ℚ) ∈ scores.map fun s => E.exp (s - top) :=
    List.mem_map.mpr ⟨top, List.max?_mem h, by rw [sub_self, E.zero]⟩
  exact ⟨hnonneg, zero_lt_one.trans_le (List.single_le_sum hnonneg _ htop)⟩

variable (E b)

/-- What `probabilities` gives when there is something to draw from. -/
structure Fair (hasInspirations : Bool) (ops : List Text) (probs : List ℚ) : Prop where
  operators : ops = b.operators.filter fun op => hasInspirations || op ≠ "recombine".toList
  length : probs.length = ops.length
  sum : probs.sum = 1
  floor : ∀ p ∈ probs, b.floor ≤ p
  order : ∀ (i j : ℕ) (op op' : Text), ops[i]? = some op → ops[j]? = some op' → b.ema op ≤ b.ema op' →
    ∃ p q, probs[i]? = some p ∧ probs[j]? = some q ∧ p ≤ q

variable {E b}

theorem probabilities_fair (htemp : 0 < b.temperature) {hasInspirations : Bool} {ops : List Text} {probs : List ℚ}
    (h : b.probabilities E hasInspirations = some (ops, probs)) : Fair b hasInspirations ops probs := by
  unfold OperatorBandit.probabilities at h
  dsimp only at h
  split at h
  · cases h
  · next top htop =>
    obtain ⟨hops, hprobs⟩ := Prod.mk.inj (Option.some.inj h)
    rw [hops] at htop hprobs
    have hne : ops ≠ [] := by
      rintro rfl
      cases htop
    obtain ⟨hmin, hfloor⟩ := floor_ops (b := b) (hops ▸ List.filter_sublist) hne
    obtain ⟨hnonneg, hpos⟩ := weights_sum_pos (E := E) htop
    have hshares := Shares.sum_proportional hpos.ne'
    rw [hmin, Shares.proportional_of_sum (Shares.sum_floored hshares b.floor)] at hprobs
    have hlength : (Shares.proportional ((ops.map fun op => b.ema op / b.temperature).map fun s => E.exp (s - top))).length =
        ops.length := by rw [Shares.length_proportional, List.length_map, List.length_map]
    subst hprobs
    refine ⟨hops.symm, ?_, Shares.sum_floored hshares b.floor, ?_, ?_⟩
    · rw [Shares.length_floored, hlength]
    · exact Shares.floor_le (by rw [hlength]; exact hfloor) (Shares.proportional_nonneg hnonneg)
    · intro i j op op' hi hj hle
      have hweight {k : ℕ} {o : Text} (ho : ops[k]? = some o) :
          ((ops.map fun op => b.ema op / b.temperature).map fun s => E.exp (s - top))[k]? =
            some (E.exp (b.ema o / b.temperature - top)) := by
        rw [List.getElem?_map, List.getElem?_map, ho]
        rfl
      refine Shares.floored_mono ?_ hnonneg (hweight hi) (hweight hj) (E.mono ?_)
      · rw [List.length_map, List.length_map]
        exact hfloor
      · exact sub_le_sub_right (div_le_div_of_nonneg_right hle htemp.le) top

theorem probabilities_eq_none {hasInspirations : Bool} : b.probabilities E hasInspirations = none ↔
    hasInspirations = false ∧ ∀ op ∈ b.operators, op = "recombine".toList := by
  have hmax : b.probabilities E hasInspirations = none ↔
      (b.operators.filter fun op => hasInspirations || op ≠ "recombine".toList) = [] := by
    unfold OperatorBandit.probabilities
    dsimp only
    split
    · next h =>
      rw [List.max?_eq_none_iff, List.map_eq_nil_iff] at h
      exact iff_of_true rfl h
    · next top h =>
      refine iff_of_false nofun fun hnil => ?_
      rw [hnil] at h
      cases h
  rw [hmax, List.filter_eq_nil_iff]
  cases hasInspirations with
  | true =>
    refine iff_of_false (fun h => ?_) nofun
    obtain ⟨op, hop⟩ := List.exists_mem_of_ne_nil _ b.nonempty
    exact h op hop rfl
  | false =>
    constructor
    · intro h
      refine ⟨rfl, fun op hop => ?_⟩
      by_contra hne
      exact h op hop (by rw [Bool.false_or]; exact decide_eq_true hne)
    · rintro ⟨-, h⟩ op hop hkeep
      rw [Bool.false_or] at hkeep
      exact of_decide_eq_true hkeep (h op hop)

end

theorem step_fixed (b : OperatorBandit) (e : Event) :
    (step b e).operators = b.operators ∧ (step b e).floor = b.floor ∧ (step b e).temperature = b.temperature ∧
      (step b e).decay = b.decay := by
  cases e with
  | restored saved => exact ⟨rfl, rfl, rfl, rfl⟩
  | graded operator cand store =>
    unfold step OperatorBandit.onCandidateGraded
    dsimp only
    split
    · split
      · exact ⟨rfl, rfl, rfl, rfl⟩
      · exact ⟨rfl, rfl, rfl, rfl⟩
    · exact ⟨rfl, rfl, rfl, rfl⟩

theorem run_fixed (b : OperatorBandit) (es : List Event) :
    (run b es).operators = b.operators ∧ (run b es).floor = b.floor ∧ (run b es).temperature = b.temperature ∧
      (run b es).decay = b.decay := by
  induction es generalizing b with
  | nil => exact ⟨rfl, rfl, rfl, rfl⟩
  | cons e es ih =>
    obtain ⟨h₁, h₂, h₃, h₄⟩ := ih (step b e)
    obtain ⟨h₁', h₂', h₃', h₄'⟩ := step_fixed b e
    exact ⟨h₁.trans h₁', h₂.trans h₂', h₃.trans h₃', h₄.trans h₄'⟩

/-- What an event makes of the average and the count of an operator of the bandit. -/
def track (decay : ℚ) (op : Text) (x : ℚ × ℕ) : Event → ℚ × ℕ
  | .graded operator cand store =>
    match if operator = op then OperatorBandit.reward? cand store else none with
    | none => x
    | some reward => (decay * x.1 + (1 - decay) * reward, x.2 + 1)
  | .restored saved => ((saved.ema op).getD x.1, (saved.n op).getD x.2)

theorem step_track {b : OperatorBandit} {op : Text} (hop : op ∈ b.operators) (e : Event) :
    ((step b e).ema op, (step b e).n op) = track b.decay op (b.ema op, b.n op) e := by
  cases e with
  | restored saved => simp only [step, OperatorBandit.setState, if_pos hop, track]
  | graded operator cand store =>
    by_cases hoperator : operator = op
    · subst hoperator
      simp only [step, OperatorBandit.onCandidateGraded, if_pos hop, track, if_true]
      cases OperatorBandit.reward? cand store with
      | none => rfl
      | some reward => simp only [Function.update_self]
    · have hsame : (step b (.graded operator cand store)).ema op = b.ema op ∧
          (step b (.graded operator cand store)).n op = b.n op := by
        unfold step OperatorBandit.onCandidateGraded
        dsimp only
        split
        · split
          · exact ⟨rfl, rfl⟩
          · exact ⟨Function.update_of_ne (Ne.symm hoperator) _ _, Function.update_of_ne (Ne.symm hoperator) _ _⟩
        · exact ⟨rfl, rfl⟩
      simp only [track, if_neg hoperator, hsame]

theorem run_track {b : OperatorBandit} {op : Text} (hop : op ∈ b.operators) (es : List Event) :
    ((run b es).ema op, (run b es).n op) = es.foldl (track b.decay op) (b.ema op, b.n op) := by
  induction es generalizing b with
  | nil => rfl
  | cons e es ih =>
    obtain ⟨hoperators, -, -, hdecay⟩ := step_fixed b e
    have hrun := ih (b := step b e) (by rw [hoperators]; exact hop)
    rw [hdecay, step_track hop] at hrun
    exact hrun

/-- In every state a run leads to, whatever was graded and restored: a distribution over the operators that may be
drawn, with the floor under each and more for more gain; it raises when only `recombine` is left and has nothing to
recombine. -/
theorem bandit_fair (E : Exponential) (b : OperatorBandit) (htemp : 0 < b.temperature) (es : List Event)
    (hasInspirations : Bool) :
    match (run b es).probabilities E hasInspirations with
    | none => hasInspirations = false ∧ ∀ op ∈ b.operators, op = "recombine".toList
    | some (ops, probs) => Fair (run b es) hasInspirations ops probs ∧ ops ⊆ b.operators := by
  obtain ⟨hoperators, -, htemperature, -⟩ := run_fixed b es
  split
  · next h =>
    rw [probabilities_eq_none, hoperators] at h
    exact h
  · next ops probs h =>
    have hfair := probabilities_fair (htemperature ▸ htemp) h
    refine ⟨hfair, fun op hop => ?_⟩
    rw [hfair.operators, hoperators] at hop
    exact List.mem_of_mem_filter hop

def ramp : Exponential where
  exp x := max 0 (1 + x)
  nonneg x := le_max_left 0 (1 + x)
  zero := by norm_num
  mono _ _ h := max_le_max le_rfl (add_le_add le_rfl h)

def revise : Text := "revise".toList

def two : OperatorBandit where
  operators := [revise, "recombine".toList]
  floor := 1 / 10
  temperature := 1 / 10
  decay := 4 / 5
  nonempty := List.cons_ne_nil _ _
  floor_nonneg := by norm_num
  floor_lt := by norm_num

def parent : Candidate := { id := ['p'], generation := 0, report := some ⟨1, true⟩ }

def gain : Event :=
  .graded revise { id := ['c'], generation := 1, parentId := some ['p'], report := some ⟨3, true⟩ } [parent]

theorem bandit_fair_two : match (run two [gain]).probabilities ramp true with
    | none => true = false ∧ ∀ op ∈ two.operators, op = "recombine".toList
    | some (ops, probs) => Fair (run two [gain]) true ops probs ∧ ops ⊆ two.operators :=
  bandit_fair ramp two (by norm_num [two]) [gain] true

/-- A bandit with other operators that is given the state goes on as the first one would have, for the operators that
both have; the others it keeps as if nothing had been restored. -/
theorem bandit_resumes (b b' : OperatorBandit) (hdecay : b'.decay = b.decay) (es es' : List Event) (op : Text)
    (hop : op ∈ b'.operators) :
    ((run (b'.setState (run b es).state) es').ema op, (run (b'.setState (run b es).state) es').n op) =
      if op ∈ b.operators then ((run b (es ++ es')).ema op, (run b (es ++ es')).n op)
      else ((run b' es').ema op, (run b' es').n op) := by
  obtain ⟨hoperators, -, -, -⟩ := run_fixed b es
  have hresumed := run_track (b := b'.setState (run b es).state) hop es'
  by_cases hold : op ∈ b.operators
  · have hema : (b'.setState (run b es).state).ema op = (run b es).ema op ∧
        (b'.setState (run b es).state).n op = (run b es).n op := by
      have hmem : op ∈ (run b es).operators := by rw [hoperators]; exact hold
      simp only [OperatorBandit.setState, OperatorBandit.state, if_pos hop, if_pos hmem, Option.getD_some, and_self]
    have hwhole := run_track hold (es ++ es')
    rw [List.foldl_append, ← run_track hold es] at hwhole
    rw [if_pos hold, hresumed, hwhole, hema.1, hema.2, ← hdecay]
    rfl
  · have hema : (b'.setState (run b es).state).ema op = b'.ema op ∧ (b'.setState (run b es).state).n op = b'.n op := by
      have hmem : op ∉ (run b es).operators := by rw [hoperators]; exact hold
      simp only [OperatorBandit.setState, OperatorBandit.state, if_pos hop, if_neg hmem, Option.getD_none, and_self]
    rw [if_neg hold, hresumed, run_track hop es', hema.1, hema.2]
    rfl

def other : OperatorBandit :=
  { two with operators := ["restructure".toList, revise], nonempty := List.cons_ne_nil _ _ }

theorem bandit_resumes_revise :
    ((run (other.setState (run two [gain]).state) [gain]).ema revise, (run (other.setState (run two [gain]).state) [gain]).n revise) =
      ((run two ([gain] ++ [gain])).ema revise, (run two ([gain] ++ [gain])).n revise) :=
  (bandit_resumes two other rfl [gain] [gain] revise (List.mem_cons_of_mem _ List.mem_cons_self)).trans
    (if_pos List.mem_cons_self)

end EvoHarness.Evoplus.Bandit
