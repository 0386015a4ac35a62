import EvoHarness.Library.PyText

/-! Choosing a parent: what a population says of a candidate, the view of one island, and
the five strategies over it. -/
namespace EvoHarness.Core.Population
open PyText

structure Report where
  fitness : ℚ
  passed : Bool
  deriving DecidableEq

structure Candidate where
  id : Text
  generation : ℕ
  parentId : Option Text := none
  islandIdx : ℕ := 0
  report : Option Report := none
  childrenCount : ℕ := 0
  inArchive : Bool := false
  timestamp : ℚ := 0
  quarantined : Bool := false
  seedCopyOf : Option Text := none
  islandReseedFrom : Option Text := none
  repairAttempted : Bool := false
  deriving DecidableEq

def Candidate.fitness (c : Candidate) : ℚ := (c.report.map Report.fitness).getD 0

def Candidate.passed (c : Candidate) : Bool := c.report.any (·.passed) && !c.quarantined

def get (pop : List Candidate) (id : Text) : Option Candidate := pop.find? (·.id == id)

structure IslandView where
  islandIdx : ℕ
  candidates : List Candidate
  deriving DecidableEq

def islandView (pop : List Candidate) (islandIdx : ℕ) : IslandView where
  islandIdx
  candidates := (pop.filter fun c => c.islandIdx == islandIdx && c.report.isSome).mergeSort fun a b =>
    decide (a.generation < b.generation ∨ a.generation = b.generation ∧ a.timestamp ≤ b.timestamp)

def IslandView.passedCandidates (v : IslandView) : List Candidate := v.candidates.filter (·.passed)

def IslandView.archiveCandidates (v : IslandView) : List Candidate :=
  v.candidates.filter fun c => c.inArchive && c.passed

/-- `_pool`: the archive members, or else all passed candidates. -/
def IslandView.pool (v : IslandView) : List Candidate :=
  if v.archiveCandidates = [] then v.passedCandidates else v.archiveCandidates

/-- `latest_failed`: the most recent failed candidate no repair was tried on, of any island. -/
def latestFailed (pop : List Candidate) : Option Candidate :=
  ((pop.filter fun c => c.report.any (!·.passed) && !c.quarantined && !c.repairAttempted).mergeSort
    fun a b => decide (b.timestamp ≤ a.timestamp)).head?

def maxBy {α : Type} (le : α → α → Prop) [DecidableRel le] : List α → Option α
  | [] => none
  | c :: rest => some (rest.foldl (fun best d => if le d best then best else d) c)

inductive Strategy where
  | weighted
  | powerLaw
  | beam
  | seedOnly
  | latest
  deriving DecidableEq

/-- `sigmoid` and `power` are numpy's, on the numbers the source hands them: a score in units of the spread, and a
rank from 1. -/
structure PopulationConfig where
  strategy : Strategy := .weighted
  weightedLambda : ℚ := 10
  beamWidth : ℕ := 2
  numIslands : ℕ := 1
  sigmoid : ℚ → ℚ≥0
  power : ℕ → ℚ≥0

def median (xs : List ℚ) : ℚ :=
  let sorted := xs.mergeSort
  if xs.length % 2 = 1 then sorted.getD (xs.length / 2) 0
  else (sorted.getD (xs.length / 2 - 1) 0 + sorted.getD (xs.length / 2) 0) / 2

inductive Sampled where
  | parent (c : Candidate)
  | none
  | raised

/-- `rng.choice(len(pool), p=probs)` takes an index of positive probability. -/
def Legal (probabilities : List ℚ≥0) (draw : ℕ) : Prop := ∃ p, probabilities[draw]? = some p ∧ 0 < p

section
variable (cfg : PopulationConfig) (multiplier : Candidate → ℚ≥0)

def baseWeight (pool : List Candidate) (c : Candidate) : ℚ≥0 :=
  let scores := pool.map Candidate.fitness
  let alpha0 := median scores
  let mad := median (scores.map fun s => |s - alpha0|)
  let scale := max mad (1 / 1000000)
  cfg.sigmoid (cfg.weightedLambda * (c.fitness - alpha0) / scale) * (1 / (1 + c.childrenCount))

def weightedWeights (pool : List Candidate) : List ℚ≥0 := pool.map fun c => baseWeight cfg pool c * multiplier c

/-- `WeightedSelector.probabilities`: uniform when nothing has weight. -/
def weightedProbabilities (pool : List Candidate) : List ℚ≥0 :=
  let w := weightedWeights cfg multiplier pool
  if w.sum = 0 then pool.map fun _ => 1 / pool.length else w.map (· / w.sum)

def fitnessOrder (pool : List Candidate) : List ℕ :=
  (List.range pool.length).mergeSort fun i j =>
    decide ((pool[j]?.map Candidate.fitness).getD 0 ≤ (pool[i]?.map Candidate.fitness).getD 0)

def powerLawWeights (pool : List Candidate) : List ℚ≥0 :=
  pool.mapIdx fun idx c => cfg.power ((fitnessOrder pool).idxOf idx + 1) * multiplier c

/-- `PowerLawSelector.probabilities`, or none where the sum divides by zero. -/
def powerLawProbabilities (pool : List Candidate) : Option (List ℚ≥0) :=
  let raw := powerLawWeights cfg multiplier pool
  if raw.sum = 0 then none else some (raw.map (· / raw.sum))

def drawn (pool : List Candidate) (draw : ℕ) : Sampled :=
  match pool[draw]? with
  | some c => .parent c
  | none => .none

/-- The parent the beam holds while it is in the pool and has room, or else the fittest. -/
def beamParent (currentId : Option Text) (pool : List Candidate) : Option Candidate :=
  let current := currentId.bind fun id => pool.find? (·.id == id)
  (current.filter (·.childrenCount < cfg.beamWidth)).or (maxBy (fun a b => a.fitness ≤ b.fitness) pool)

def latestPassed (v : IslandView) : Option Candidate :=
  maxBy (fun a b => a.generation < b.generation ∨ a.generation = b.generation ∧ a.timestamp ≤ b.timestamp)
    v.passedCandidates

def firstSeed (v : IslandView) : Option Candidate := v.passedCandidates.find? (·.generation == 0)

def Sampled.ofOption : Option Candidate → Sampled
  | some c => .parent c
  | Option.none => .none

def probabilities (v : IslandView) : Option (List ℚ≥0) :=
  match cfg.strategy with
  | .weighted => some (weightedProbabilities cfg multiplier v.pool)
  | .powerLaw => powerLawProbabilities cfg multiplier v.pool
  | _ => Option.none

/-- `ParentSelector.sample`; `currentId` is what the beam holds. -/
def sample (currentId : Option Text) (v : IslandView) (draw : ℕ) : Sampled :=
  match cfg.strategy with
  | .weighted => if v.pool = [] then .none else drawn v.pool draw
  | .powerLaw =>
    if v.pool = [] then .none
    else if (powerLawProbabilities cfg multiplier v.pool).isSome = true then drawn v.pool draw else .raised
  | .beam => .ofOption (beamParent cfg currentId v.pool)
  | .seedOnly => .ofOption (firstSeed v)
  | .latest => .ofOption (latestPassed v)

def MayDraw (v : IslandView) (draw : ℕ) : Prop :=
  v.pool ≠ [] → ∀ ps, probabilities cfg multiplier v = some ps → Legal ps draw

/-- The candidates a strategy may pick: those with weight, or all if none has any; the held or the fittest; the
first seed; the latest. -/
def MayPick (currentId : Option Text) (v : IslandView) (c : Candidate) : Prop :=
  match cfg.strategy with
  | .weighted => c ∈ v.pool ∧ (0 < baseWeight cfg v.pool c * multiplier c ∨
      ∀ d ∈ v.pool, baseWeight cfg v.pool d * multiplier d = 0)
  | .powerLaw => ∃ idx, v.pool[idx]? = some c ∧ 0 < cfg.power ((fitnessOrder v.pool).idxOf idx + 1) * multiplier c
  | .beam => beamParent cfg currentId v.pool = some c
  | .seedOnly => firstSeed v = some c
  | .latest => latestPassed v = some c

end

variable {cfg : PopulationConfig} {multiplier : Candidate → ℚ≥0} {currentId : Option Text} {v : IslandView}
  {c : Candidate} {pool : List Candidate} {draw : ℕ}

theorem sum_eq_zero_iff {w : List ℚ≥0} : w.sum = 0 ↔ ∀ x ∈ w, x = 0 := List.sum_eq_zero_iff

theorem div_sum_pos {w : List ℚ≥0} {x : ℚ≥0} (hw : w.sum ≠ 0) : 0 < x / w.sum ↔ 0 < x := by
  rw [div_pos_iff_of_pos_right (pos_iff_ne_zero.mpr hw)]

theorem legal_weighted : Legal (weightedProbabilities cfg multiplier pool) draw ↔
    ∃ c, pool[draw]? = some c ∧ (0 < baseWeight cfg pool c * multiplier c ∨
      ∀ d ∈ pool, baseWeight cfg pool d * multiplier d = 0) := by
  have hzero : (weightedWeights cfg multiplier pool).sum = 0 ↔
      ∀ d ∈ pool, baseWeight cfg pool d * multiplier d = 0 := by
    rw [sum_eq_zero_iff, weightedWeights, List.forall_mem_map]
  by_cases h : (weightedWeights cfg multiplier pool).sum = 0
  · have hall := hzero.mp h
    have hlength : ∀ c, pool[draw]? = some c → (0 : ℚ≥0) < 1 / pool.length := by
      intro c hc
      have hpos : 0 < pool.length := List.length_pos_of_mem (List.mem_of_getElem? hc)
      positivity
    rw [Legal, weightedProbabilities]
    simp only [h, if_true, List.getElem?_map, Option.map_eq_some_iff]
    constructor
    · intro hp
      obtain ⟨p, ⟨c, hc, -⟩, -⟩ := hp
      exact ⟨c, hc, Or.inr hall⟩
    · intro hc
      obtain ⟨c, hc, -⟩ := hc
      exact ⟨_, ⟨c, hc, rfl⟩, hlength c hc⟩
  · have hsome : ¬ ∀ d ∈ pool, baseWeight cfg pool d * multiplier d = 0 := fun hall => h (hzero.mpr hall)
    rw [Legal, weightedProbabilities]
    simp only [h, if_false, List.getElem?_map, Option.map_eq_some_iff, hsome, or_false]
    constructor
    · intro hp
      obtain ⟨p, ⟨w, hw, hp⟩, hpos⟩ := hp
      rw [← hp, div_sum_pos h] at hpos
      rw [weightedWeights, List.getElem?_map] at hw
      obtain ⟨c, hc, hwc⟩ := Option.map_eq_some_iff.mp hw
      rw [← hwc] at hpos
      exact ⟨c, hc, hpos⟩
    · intro hc
      obtain ⟨c, hc, hpos⟩ := hc
      refine ⟨_, ⟨_, ?_, rfl⟩, (div_sum_pos h).mpr hpos⟩
      rw [weightedWeights, List.getElem?_map, hc]
      rfl

theorem legal_powerLaw {ps : List ℚ≥0} (h : powerLawProbabilities cfg multiplier pool = some ps) :
    Legal ps draw ↔ ∃ c, pool[draw]? = some c ∧ 0 < cfg.power ((fitnessOrder pool).idxOf draw + 1) * multiplier c := by
  rw [powerLawProbabilities] at h
  by_cases hsum : (powerLawWeights cfg multiplier pool).sum = 0
  · simp [hsum] at h
  · simp only [hsum, if_false, Option.some.injEq] at h
    rw [← h, Legal]
    simp only [List.getElem?_map, Option.map_eq_some_iff]
    constructor
    · intro hp
      obtain ⟨p, ⟨w, hw, hp⟩, hpos⟩ := hp
      rw [← hp, div_sum_pos hsum] at hpos
      rw [powerLawWeights, List.getElem?_mapIdx] at hw
      obtain ⟨c, hc, hwc⟩ := Option.map_eq_some_iff.mp hw
      rw [← hwc] at hpos
      exact ⟨c, hc, hpos⟩
    · intro hc
      obtain ⟨c, hc, hpos⟩ := hc
      refine ⟨_, ⟨_, ?_, rfl⟩, (div_sum_pos hsum).mpr hpos⟩
      rw [powerLawWeights, List.getElem?_mapIdx, hc]
      rfl

theorem maxBy_isSome {α : Type} (le : α → α → Prop) [DecidableRel le] {xs : List α} (h : xs ≠ []) :
    ∃ a, maxBy le xs = some a := by
  cases xs with
  | nil => exact absurd rfl h
  | cons a xs => exact ⟨_, rfl⟩

theorem maxBy_mem {γ : Type} (le : γ → γ → Prop) [DecidableRel le] {xs : List γ} {a : γ} (h : maxBy le xs = some a) :
    a ∈ xs := by
  cases xs with
  | nil => cases h
  | cons c xs =>
    have hfold : ∀ (ys : List γ) (b : γ), ys.foldl (fun best d => if le d best then best else d) b ∈ b :: ys := by
      intro ys
      induction ys with
      | nil => simp
      | cons y ys ih =>
        intro b
        rw [List.foldl_cons]
        split
        · cases List.mem_cons.mp (ih b) with
          | inl h => rw [h]; exact List.mem_cons_self
          | inr h => exact List.mem_cons_of_mem _ (List.mem_cons_of_mem _ h)
        · exact List.mem_cons_of_mem _ (ih y)
    rw [← Option.some.inj h]
    exact hfold xs c

theorem beamParent_isSome (cfg : PopulationConfig) (currentId : Option Text) (h : pool ≠ []) : ∃ c, beamParent cfg currentId pool = some c := by
  obtain ⟨c, hc⟩ := maxBy_isSome (fun a b : Candidate => a.fitness ≤ b.fitness) h
  rw [beamParent, hc]
  cases (Option.filter _ _ : Option Candidate) with
  | none => exact ⟨c, rfl⟩
  | some d => exact ⟨d, rfl⟩

theorem passed_of_pool (h : v.passedCandidates ≠ []) : v.pool ≠ [] := by
  unfold IslandView.pool
  split
  · exact h
  · assumption

theorem drawn_parent : drawn pool draw = .parent c ↔ pool[draw]? = some c := by
  unfold drawn
  cases pool[draw]? with
  | none => simp
  | some d => simp

theorem ofOption_parent {o : Option Candidate} : Sampled.ofOption o = .parent c ↔ o = some c := by
  cases o with
  | none => simp [Sampled.ofOption]
  | some d => simp [Sampled.ofOption]

theorem powerLaw_none : powerLawProbabilities cfg multiplier pool = none ↔
    ∀ idx c, pool[idx]? = some c → cfg.power ((fitnessOrder pool).idxOf idx + 1) * multiplier c = 0 := by
  have hsum : (powerLawWeights cfg multiplier pool).sum = 0 ↔
      ∀ idx c, pool[idx]? = some c → cfg.power ((fitnessOrder pool).idxOf idx + 1) * multiplier c = 0 := by
    rw [sum_eq_zero_iff]
    constructor
    · intro h idx c hc
      apply h
      apply List.mem_of_getElem? (i := idx)
      rw [powerLawWeights, List.getElem?_mapIdx, hc]
      rfl
    · intro h w hw
      obtain ⟨idx, hidx⟩ := List.getElem?_of_mem hw
      rw [powerLawWeights, List.getElem?_mapIdx] at hidx
      obtain ⟨c, hc, hwc⟩ := Option.map_eq_some_iff.mp hidx
      rw [← hwc]
      exact h idx c hc
  rw [← hsum, powerLawProbabilities]
  split
  · simp_all
  · simp_all

/-- A draw the generator may make gives a candidate that may be picked, and each of them is given by one. -/
theorem mayPick_iff (hpool : v.pool ≠ []) : MayPick cfg multiplier currentId v c ↔
    ∃ draw, MayDraw cfg multiplier v draw ∧ sample cfg multiplier currentId v draw = .parent c := by
  unfold MayPick MayDraw sample probabilities
  cases cfg.strategy with
  | weighted =>
    simp only [hpool, ne_eq, not_false_eq_true, Option.some.injEq, forall_eq', legal_weighted, if_false, drawn_parent,
      forall_const]
    constructor
    · intro h
      obtain ⟨draw, hdraw⟩ := List.getElem?_of_mem h.1
      exact ⟨draw, ⟨c, hdraw, h.2⟩, hdraw⟩
    · intro h
      obtain ⟨draw, ⟨d, hd, hweight⟩, hc⟩ := h
      have hsame : d = c := Option.some.inj (hd.symm.trans hc)
      rw [← hsame]
      exact ⟨List.mem_of_getElem? hd, hweight⟩
  | powerLaw =>
    simp only [hpool, ne_eq, not_false_eq_true, if_false, forall_const]
    cases hps : powerLawProbabilities cfg multiplier v.pool with
    | none =>
      have hnone := powerLaw_none.mp hps
      constructor
      · intro h
        obtain ⟨idx, hidx, hpos⟩ := h
        rw [hnone idx c hidx] at hpos
        exact absurd hpos (lt_irrefl 0)
      · intro h
        obtain ⟨draw, -, hraised⟩ := h
        cases hraised
    | some ps =>
      simp only [Option.some.injEq, forall_eq', legal_powerLaw hps, Option.isSome_some, if_true, drawn_parent]
      constructor
      · intro h
        obtain ⟨idx, hidx, hpos⟩ := h
        exact ⟨idx, ⟨c, hidx, hpos⟩, hidx⟩
      · intro h
        obtain ⟨draw, ⟨d, hd, hpos⟩, hc⟩ := h
        have hsame : d = c := Option.some.inj (hd.symm.trans hc)
        rw [hsame] at hd hpos
        exact ⟨draw, hd, hpos⟩
  | beam => simp [ofOption_parent]
  | seedOnly => simp [ofOption_parent]
  | latest => simp [ofOption_parent]

theorem exists_mayDraw (cfg : PopulationConfig) (multiplier : Candidate → ℚ≥0) (v : IslandView) : ∃ draw, MayDraw cfg multiplier v draw := by
  by_cases hpool : v.pool = []
  · exact ⟨0, fun h => absurd hpool h⟩
  · unfold MayDraw probabilities
    obtain ⟨c, hc⟩ := List.exists_mem_of_ne_nil _ hpool
    cases cfg.strategy with
    | weighted =>
      simp only [hpool, ne_eq, not_false_eq_true, Option.some.injEq, forall_eq', legal_weighted, forall_const]
      by_cases hall : ∀ d ∈ v.pool, baseWeight cfg v.pool d * multiplier d = 0
      · obtain ⟨draw, hdraw⟩ := List.getElem?_of_mem hc
        exact ⟨draw, c, hdraw, Or.inr hall⟩
      · obtain ⟨d, hd⟩ := not_forall.mp hall
        obtain ⟨hmem, hweight⟩ := Classical.not_imp.mp hd
        obtain ⟨draw, hdraw⟩ := List.getElem?_of_mem hmem
        exact ⟨draw, d, hdraw, Or.inl (pos_iff_ne_zero.mpr hweight)⟩
    | powerLaw =>
      simp only [hpool, ne_eq, not_false_eq_true, forall_const]
      cases hps : powerLawProbabilities cfg multiplier v.pool with
      | none => exact ⟨0, fun ps h => by cases h⟩
      | some ps =>
        have hsome := mt powerLaw_none.mpr (by rw [hps]; simp)
        obtain ⟨idx, hidx⟩ := not_forall.mp hsome
        obtain ⟨d, hd⟩ := not_forall.mp hidx
        obtain ⟨hget, hweight⟩ := Classical.not_imp.mp hd
        refine ⟨idx, fun ps' hps' => ?_⟩
        rw [← Option.some.inj hps', legal_powerLaw hps]
        exact ⟨d, hget, pos_iff_ne_zero.mpr hweight⟩
    | beam => exact ⟨0, fun _ ps h => by cases h⟩
    | seedOnly => exact ⟨0, fun _ ps h => by cases h⟩
    | latest => exact ⟨0, fun _ ps h => by cases h⟩

theorem sample_none (currentId : Option Text) (hpassed : v.passedCandidates ≠ []) (hdraw : MayDraw cfg multiplier v draw) :
    sample cfg multiplier currentId v draw = .none ↔ cfg.strategy = .seedOnly ∧ firstSeed v = none := by
  have hpool := passed_of_pool hpassed
  unfold MayDraw probabilities at hdraw
  unfold sample
  cases hstrategy : cfg.strategy with
  | weighted =>
    simp only [hstrategy, Option.some.injEq, forall_eq', legal_weighted] at hdraw
    obtain ⟨c, hc, -⟩ := hdraw hpool
    simp [hpool, drawn, hc]
  | powerLaw =>
    simp only [hstrategy] at hdraw
    cases hps : powerLawProbabilities cfg multiplier v.pool with
    | none => simp [hpool]
    | some ps =>
      obtain ⟨c, hc, -⟩ := (legal_powerLaw hps).mp (hdraw hpool ps hps)
      simp [hpool, drawn, hc]
  | beam =>
    obtain ⟨c, hc⟩ := beamParent_isSome cfg currentId hpool
    simp [hc, Sampled.ofOption]
  | seedOnly =>
    cases hseed : firstSeed v with
    | none => simp [Sampled.ofOption]
    | some c => simp [Sampled.ofOption]
  | latest =>
    obtain ⟨c, hc⟩ := maxBy_isSome (fun a b : Candidate =>
      a.generation < b.generation ∨ a.generation = b.generation ∧ a.timestamp ≤ b.timestamp) hpassed
    simp [latestPassed, hc, Sampled.ofOption]

end EvoHarness.Core.Population
