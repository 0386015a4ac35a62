import EvoHarness.Core.Selection
import Mathlib.Data.List.MinMax
import Mathlib.Data.Prod.Lex

/-! A lineage veto: the weight policy that carries it, the three ways a proposal gets its
parent, and who descends from a vetoed candidate. -/
namespace EvoHarness.Core.Population
open PyText

inductive DirectiveKind where
  | guidance
  | lineageVeto
  deriving DecidableEq

structure Directive where
  kind : DirectiveKind
  candidateIds : List Text := []

def vetoedIds (directives : List Directive) : List Text :=
  (directives.filter (·.kind = .lineageVeto)).flatMap Directive.candidateIds

def vetoWalk (pop : List Candidate) (vetoed : List Text) : ℕ → Option Candidate → ℚ≥0
  | 0, _ => 1
  | _ + 1, none => 1
  | depth + 1, some node => if node.id ∈ vetoed then 0 else vetoWalk pop vetoed depth (node.parentId.bind (get pop))

def weightMultiplier (maxDepth : ℕ) (pop : List Candidate) (vetoed : List Text) (c : Candidate) : ℚ≥0 :=
  if vetoed = [] then 1 else vetoWalk pop vetoed maxDepth (some c)

/-- `others` is the product of the other weight policies. -/
structure Planning where
  cfg : PopulationConfig
  directives : List Directive
  maxDepth : ℕ := 200
  others : Candidate → ℚ≥0 := fun _ => 1
  evalBatchSize : ℕ := 1
  repairEnabled : Bool := false
  repairProbability : ℚ := 1

/-- What planning gets from outside: the base of a merge, if the planner offers one, a random number, the parent
the beam holds, and a draw. -/
structure Chance where
  merge : Option Candidate := none
  roll : ℚ := 0
  currentId : Option Text := none
  draw : ℕ := 0

inductive Route where
  | merge (base : Candidate)
  | repair (failed : Candidate)
  | select

section
variable (p : Planning) (pop : List Candidate)

def Planning.vetoed : List Text := vetoedIds p.directives

def Planning.multiplier (c : Candidate) : ℚ≥0 := p.others c * weightMultiplier p.maxDepth pop p.vetoed c

/-- `_pick_island`: the islands in turn, up to one with a passed candidate. -/
def Planning.pickIsland (generation slot : ℕ) : Option IslandView :=
  let rotation := generation * max 1 p.evalBatchSize + slot
  ((List.range p.cfg.numIslands).map fun i => islandView pop ((rotation + i) % p.cfg.numIslands)).find?
    (·.passedCandidates ≠ [])

def Planning.route (x : Chance) : Route :=
  match x.merge with
  | some base => .merge base
  | none =>
    match if p.repairEnabled = true then latestFailed pop else none with
    | some failed => if x.roll < p.repairProbability then .repair failed else .select
    | none => .select

/-- The parent of `_plan_proposal` on the island it picked. -/
def Planning.parentFor (v : IslandView) (x : Chance) : Sampled :=
  match p.route pop x with
  | .merge base => .parent base
  | .repair failed => .parent failed
  | .select => sample p.cfg (p.multiplier pop) x.currentId v x.draw

end

def Candidate.links (c : Candidate) : List Text :=
  c.parentId.toList ++ c.seedCopyOf.toList ++ c.islandReseedFrom.toList

inductive Vetoed (pop : List Candidate) (vetoed : List Text) : Candidate → Prop
  | self (c : Candidate) (h : c.id ∈ vetoed) : Vetoed pop vetoed c
  | inherited (c a : Candidate) (id : Text) (hid : id ∈ c.links) (ha : get pop id = some a)
    (h : Vetoed pop vetoed a) : Vetoed pop vetoed c

def Available (pop : List Candidate) (vetoed : List Text) (v : IslandView) : Prop :=
  ∃ c ∈ v.passedCandidates, ¬ Vetoed pop vetoed c

def AllVetoed (pop : List Candidate) (vetoed : List Text) (v : IslandView) : Prop :=
  ∀ c ∈ v.candidates, Vetoed pop vetoed c

/-- The veto is total: a vetoed line is chosen only where nothing else is available, and a selection among vetoed
candidates only gives none. -/
structure VetoTotal (p : Planning) (pop : List Candidate) (v : IslandView) (x : Chance) : Prop where
  chosen : Available pop p.vetoed v → ∀ c, p.parentFor pop v x = .parent c → ¬ Vetoed pop p.vetoed c
  all : p.route pop x = .select → AllVetoed pop p.vetoed v → p.parentFor pop v x = .none

def nthParent (pop : List Candidate) : ℕ → Candidate → Option Candidate
  | 0, c => some c
  | n + 1, c => (c.parentId.bind (get pop)).bind (nthParent pop n)

/-- A vetoed candidate among the parents' parents, no further than the walk goes. -/
def Seen (pop : List Candidate) (vetoed : List Text) (maxDepth : ℕ) (c : Candidate) : Prop :=
  ∃ n < maxDepth, ∃ a, nthParent pop n c = some a ∧ a.id ∈ vetoed

/-- The first of the greatest. -/
def Foremost {α κ : Type} [LinearOrder κ] [DecidableEq α] (key : α → κ) (cands : List α) (c : α) : Prop :=
  c ∈ cands ∧ (∀ d ∈ cands, key d ≤ key c) ∧ ∀ d ∈ cands, key c ≤ key d → cands.idxOf c ≤ cands.idxOf d

def HeldWithRoom (cfg : PopulationConfig) (currentId : Option Text) (pool : List Candidate) (c : Candidate) : Prop :=
  (currentId.bind fun id => pool.find? (·.id == id)) = some c ∧ c.childrenCount < cfg.beamWidth

section
variable (p : Planning) (pop : List Candidate) (v : IslandView) (x : Chance)

/-- The weight of a pool member before the veto. -/
def Planning.ownWeight (c : Candidate) : ℚ≥0 := baseWeight p.cfg v.pool c * p.others c

def Planning.rankWeight (idx : ℕ) (c : Candidate) : ℚ≥0 :=
  p.cfg.power ((fitnessOrder v.pool).idxOf idx + 1) * p.others c

/-- What the pool, the weights and the ancestry must be like for each strategy: some free member has weight and the walk
sees the veto of all others that have some, or all are free; or the one that is held, first, fittest or latest is free. -/
def Spares : Prop :=
  match p.cfg.strategy with
  | .weighted => (∀ c ∈ v.pool, ¬Vetoed pop p.vetoed c) ∨
      (∃ c ∈ v.pool, ¬Vetoed pop p.vetoed c ∧ 0 < p.ownWeight v c) ∧
        ∀ c ∈ v.pool, Vetoed pop p.vetoed c → 0 < p.ownWeight v c → Seen pop p.vetoed p.maxDepth c
  | .powerLaw => ∀ idx c, v.pool[idx]? = some c → Vetoed pop p.vetoed c → 0 < p.rankWeight v idx c →
      Seen pop p.vetoed p.maxDepth c
  | .beam => (∀ c, HeldWithRoom p.cfg x.currentId v.pool c → ¬Vetoed pop p.vetoed c) ∧
      ((∀ c, ¬HeldWithRoom p.cfg x.currentId v.pool c) →
        ∀ c, Foremost Candidate.fitness v.pool c → ¬Vetoed pop p.vetoed c)
  | .seedOnly => ∀ before c after, v.passedCandidates = before ++ c :: after → c.generation = 0 →
      (∀ b ∈ before, b.generation ≠ 0) → ¬Vetoed pop p.vetoed c
  | .latest => ∀ c, Foremost (fun c => toLex (c.generation, c.timestamp)) v.passedCandidates c → ¬Vetoed pop p.vetoed c

/-- What the state must say for this: of the merge, of the repair, and of the pool that the strategy selects from. -/
structure VetoHolds : Prop where
  merge : ∀ base, p.route pop x = .merge base → Available pop p.vetoed v → ¬ Vetoed pop p.vetoed base
  repair : ∀ failed, p.route pop x = .repair failed → Available pop p.vetoed v → ¬ Vetoed pop p.vetoed failed
  selected : p.route pop x = .select → Available pop p.vetoed v → Spares p pop v x
  all : p.route pop x = .select → AllVetoed pop p.vetoed v →
    p.cfg.strategy = .seedOnly ∧ ∀ c ∈ v.passedCandidates, c.generation ≠ 0

end

variable {p : Planning} {pop : List Candidate} {v : IslandView} {x : Chance} {c a : Candidate} {vetoed : List Text}
  {depth : ℕ}

/-- The policy is sound: who has no weight is vetoed or descends from a vetoed parent. -/
theorem vetoed_of_walk (h : vetoWalk pop vetoed depth (some c) = 0) : Vetoed pop vetoed c := by
  induction depth generalizing c with
  | zero => simp [vetoWalk] at h
  | succ depth ih =>
    by_cases hc : c.id ∈ vetoed
    · exact .self c hc
    · rw [vetoWalk, if_neg hc] at h
      cases hparent : c.parentId with
      | none =>
        rw [hparent] at h
        cases depth <;> simp [vetoWalk] at h
      | some id =>
        rw [hparent, Option.bind_some] at h
        cases hget : get pop id with
        | none =>
          rw [hget] at h
          cases depth <;> simp [vetoWalk] at h
        | some a =>
          rw [hget] at h
          exact .inherited c a id (by simp [Candidate.links, hparent]) hget (ih h)

theorem vetoed_of_weightMultiplier {maxDepth : ℕ} (h : weightMultiplier maxDepth pop vetoed c = 0) :
    Vetoed pop vetoed c := by
  unfold weightMultiplier at h
  split at h
  · simp at h
  · exact vetoed_of_walk h

theorem vetoWalk_eq_zero : vetoWalk pop vetoed depth (some c) = 0 ↔ Seen pop vetoed depth c := by
  induction depth generalizing c with
  | zero => simp [vetoWalk, Seen]
  | succ depth ih =>
    rw [vetoWalk]
    by_cases hc : c.id ∈ vetoed
    · rw [if_pos hc]
      exact iff_of_true rfl ⟨0, Nat.succ_pos depth, c, rfl, hc⟩
    · rw [if_neg hc]
      have hlater : Seen pop vetoed (depth + 1) c ↔
          ∃ a, c.parentId.bind (get pop) = some a ∧ Seen pop vetoed depth a := by
        constructor
        · rintro ⟨n, hn, a, ha, hveto⟩
          cases n with
          | zero =>
            cases ha
            exact absurd hveto hc
          | succ n =>
            obtain ⟨parent, hparent, ha⟩ := Option.bind_eq_some_iff.mp ha
            exact ⟨parent, hparent, n, Nat.lt_of_succ_lt_succ hn, a, ha, hveto⟩
        · rintro ⟨parent, hparent, n, hn, a, ha, hveto⟩
          exact ⟨n + 1, Nat.succ_lt_succ hn, a, Option.bind_eq_some_iff.mpr ⟨parent, hparent, ha⟩, hveto⟩
      rw [hlater]
      cases hparent : c.parentId.bind (get pop) with
      | none =>
        have hone : vetoWalk pop vetoed depth none = 1 := by cases depth <;> rw [vetoWalk]
        rw [hone]
        exact iff_of_false one_ne_zero fun ⟨a, ha, _⟩ => nomatch ha
      | some parent =>
        rw [ih]
        exact ⟨fun h => ⟨parent, rfl, h⟩, fun ⟨a, ha, h⟩ => Option.some.inj ha ▸ h⟩

theorem seen_iff {maxDepth : ℕ} : Seen pop vetoed maxDepth c ↔ weightMultiplier maxDepth pop vetoed c = 0 := by
  unfold weightMultiplier
  split
  · next hnone =>
    refine iff_of_false ?_ one_ne_zero
    rintro ⟨n, -, a, -, ha⟩
    rw [hnone] at ha
    cases ha
  · exact vetoWalk_eq_zero.symm

theorem mul_multiplier_pos {w : ℚ≥0} : 0 < w * p.multiplier pop c ↔ 0 < w * p.others c ∧ ¬Seen pop p.vetoed p.maxDepth c := by
  rw [Planning.multiplier, ← mul_assoc, pos_iff_ne_zero, mul_ne_zero_iff, ← pos_iff_ne_zero, seen_iff]

theorem not_seen (h : ¬Vetoed pop p.vetoed c) : ¬Seen pop p.vetoed p.maxDepth c :=
  fun hseen => h (vetoed_of_weightMultiplier (seen_iff.mp hseen))

theorem maxBy_eq_argmax {α κ : Type} [LinearOrder κ] (key : α → κ) (le : α → α → Prop) [DecidableRel le]
    (hle : ∀ a b, le a b ↔ key a ≤ key b) (xs : List α) : maxBy le xs = xs.argmax key := by
  have hfold : ∀ (xs : List α) (best : α), some (xs.foldl (fun best d => if le d best then best else d) best) =
      xs.foldl (List.argAux fun b c => key c < key b) (some best) := by
    intro xs
    induction xs with
    | nil => exact fun _ => rfl
    | cons d xs ih =>
      intro best
      have hstep : List.argAux (fun b c => key c < key b) (some best) d = some (if le d best then best else d) := by
        show (if key best < key d then some d else some best) = _
        by_cases hd : le d best
        · rw [if_pos hd, if_neg (not_lt.mpr ((hle d best).mp hd))]
        · rw [if_neg hd, if_pos (not_le.mp ((hle d best).not.mp hd))]
      rw [List.foldl_cons, List.foldl_cons, hstep]
      exact ih _
  cases xs with
  | nil => rfl
  | cons c xs => exact hfold xs c

theorem maxBy_eq_some {α κ : Type} [LinearOrder κ] [DecidableEq α] {key : α → κ} {le : α → α → Prop} [DecidableRel le]
    (hle : ∀ a b, le a b ↔ key a ≤ key b) {xs : List α} {a : α} : maxBy le xs = some a ↔ Foremost key xs a := by
  rw [maxBy_eq_argmax key le hle]
  exact List.mem_argmax_iff

theorem beamParent_eq_some {cfg : PopulationConfig} {currentId : Option Text} {pool : List Candidate} :
    beamParent cfg currentId pool = some c ↔ HeldWithRoom cfg currentId pool c ∨
      (∀ d, ¬HeldWithRoom cfg currentId pool d) ∧ Foremost Candidate.fitness pool c := by
  have hheld : ∀ d, ((currentId.bind fun id => pool.find? (·.id == id)).filter (·.childrenCount < cfg.beamWidth)) = some d ↔
      HeldWithRoom cfg currentId pool d := by
    intro d
    rw [Option.filter_eq_some_iff, decide_eq_true_eq]
    rfl
  unfold beamParent
  dsimp only
  rw [Option.or_eq_some_iff, hheld, @maxBy_eq_some _ _ _ _ Candidate.fitness _ _ fun _ _ => Iff.rfl]
  simp only [← hheld, ← ne_eq, Option.eq_none_iff_forall_ne_some]

theorem firstSeed_eq_some : firstSeed v = some c ↔ ∃ before after, v.passedCandidates = before ++ c :: after ∧
    c.generation = 0 ∧ ∀ b ∈ before, b.generation ≠ 0 := by
  unfold firstSeed
  rw [List.find?_eq_some_iff_append]
  simp only [beq_iff_eq, Bool.not_eq_true', beq_eq_false_iff_ne]
  exact ⟨fun ⟨hc, before, after, heq, hbefore⟩ => ⟨before, after, heq, hc, hbefore⟩,
    fun ⟨before, after, heq, hc, hbefore⟩ => ⟨hc, before, after, heq, hbefore⟩⟩

theorem firstSeed_eq_none : firstSeed v = none ↔ ∀ c ∈ v.passedCandidates, c.generation ≠ 0 := by
  unfold firstSeed
  simp only [List.find?_eq_none, beq_iff_eq, ne_eq]

theorem latestPassed_eq_some :
    latestPassed v = some c ↔ Foremost (fun c => toLex (c.generation, c.timestamp)) v.passedCandidates c := by
  unfold latestPassed
  exact maxBy_eq_some fun a b => by rw [Prod.Lex.toLex_le_toLex]

theorem spares_weighted : ((∀ c ∈ v.pool, ¬Vetoed pop p.vetoed c) ∨
      (∃ c ∈ v.pool, ¬Vetoed pop p.vetoed c ∧ 0 < p.ownWeight v c) ∧
        ∀ c ∈ v.pool, Vetoed pop p.vetoed c → 0 < p.ownWeight v c → Seen pop p.vetoed p.maxDepth c) ↔
    ∀ c, (c ∈ v.pool ∧ (0 < baseWeight p.cfg v.pool c * p.multiplier pop c ∨
      ∀ d ∈ v.pool, baseWeight p.cfg v.pool d * p.multiplier pop d = 0)) → ¬Vetoed pop p.vetoed c := by
  have hweight : ∀ d, baseWeight p.cfg v.pool d * p.multiplier pop d = 0 ↔
      ¬(0 < p.ownWeight v d ∧ ¬Seen pop p.vetoed p.maxDepth d) := by
    intro d
    rw [Planning.ownWeight, ← mul_multiplier_pos, not_lt, nonpos_iff_eq_zero]
  simp only [mul_multiplier_pos, hweight]
  constructor
  · rintro (hall | ⟨⟨free, hfree, hveto, hown⟩, hseen⟩) c ⟨hc, hpick⟩
    · exact hall c hc
    · intro hcveto
      rcases hpick with ⟨hpos, hunseen⟩ | hnone
      · exact hunseen (hseen c hc hcveto hpos)
      · exact hnone free hfree ⟨hown, not_seen hveto⟩
  · intro hpicks
    by_cases hsome : ∃ d ∈ v.pool, 0 < p.ownWeight v d ∧ ¬Seen pop p.vetoed p.maxDepth d
    · obtain ⟨d, hd, hpos, hunseen⟩ := hsome
      refine .inr ⟨⟨d, hd, hpicks d ⟨hd, .inl ⟨hpos, hunseen⟩⟩, hpos⟩, fun c hc hcveto hcpos => ?_⟩
      by_contra hcunseen
      exact hpicks c ⟨hc, .inl ⟨hcpos, hcunseen⟩⟩ hcveto
    · exact .inl fun c hc => hpicks c ⟨hc, .inr fun d hd hw => hsome ⟨d, hd, hw⟩⟩

/-- What the pool, the weights and the ancestry say decides whether everyone who may be picked is free. -/
theorem spares_iff : Spares p pop v x ↔
    ∀ c, MayPick p.cfg (p.multiplier pop) x.currentId v c → ¬Vetoed pop p.vetoed c := by
  unfold Spares MayPick
  cases p.cfg.strategy with
  | weighted => exact spares_weighted
  | powerLaw =>
    simp only [mul_multiplier_pos]
    constructor
    · rintro hseen c ⟨idx, hc, hpos, hunseen⟩ hveto
      exact hunseen (hseen idx c hc hveto hpos)
    · intro hpicks idx c hc hveto hpos
      by_contra hunseen
      exact hpicks c ⟨idx, hc, hpos, hunseen⟩ hveto
  | beam =>
    simp only [beamParent_eq_some]
    constructor
    · rintro ⟨hheld, hfittest⟩ c (hc | ⟨hnone, hc⟩)
      · exact hheld c hc
      · exact hfittest hnone c hc
    · intro hpicks
      exact ⟨fun c hc => hpicks c (.inl hc), fun hnone c hc => hpicks c (.inr ⟨hnone, hc⟩)⟩
  | seedOnly =>
    simp only [firstSeed_eq_some]
    constructor
    · rintro hfirst c ⟨before, after, heq, hc, hbefore⟩
      exact hfirst before c after heq hc hbefore
    · intro hpicks before c after heq hc hbefore
      exact hpicks c ⟨before, after, heq, hc, hbefore⟩
  | latest => simp only [latestPassed_eq_some]

/-- `IslandHealthMonitor._inject`: a donor's copy on an island that has gone quiet. -/
def injected (donor : Candidate) (id : Text) (islandIdx : ℕ) (timestamp : ℚ) : Candidate :=
  { id, generation := donor.generation, islandIdx, report := donor.report, timestamp, quarantined := donor.quarantined
    repairAttempted := donor.repairAttempted, seedCopyOf := donor.seedCopyOf.or (some donor.id)
    islandReseedFrom := some donor.id }

theorem pickIsland_passed {generation slot : ℕ} (h : p.pickIsland pop generation slot = some v) :
    v.passedCandidates ≠ [] := by
  unfold Planning.pickIsland at h
  simpa using List.find?_some h

theorem route_draw (draw : ℕ) : p.route pop { x with draw } = p.route pop x := rfl

theorem vetoTotal_merge {base : Candidate} (h : p.route pop x = .merge base) :
    VetoTotal p pop v x ↔ (Available pop p.vetoed v → ¬ Vetoed pop p.vetoed base) := by
  have hparent : p.parentFor pop v x = .parent base := by rw [Planning.parentFor, h]
  constructor
  · intro htotal havailable
    exact htotal.chosen havailable base hparent
  · intro hbase
    constructor
    · intro havailable c hc
      rw [hparent] at hc
      cases hc
      exact hbase havailable
    · intro hselect
      rw [h] at hselect
      cases hselect

theorem vetoTotal_repair {failed : Candidate} (h : p.route pop x = .repair failed) :
    VetoTotal p pop v x ↔ (Available pop p.vetoed v → ¬ Vetoed pop p.vetoed failed) := by
  have hparent : p.parentFor pop v x = .parent failed := by rw [Planning.parentFor, h]
  constructor
  · intro htotal havailable
    exact htotal.chosen havailable failed hparent
  · intro hfailed
    constructor
    · intro havailable c hc
      rw [hparent] at hc
      cases hc
      exact hfailed havailable
    · intro hselect
      rw [h] at hselect
      cases hselect

theorem parentFor_select (h : p.route pop x = .select) (draw : ℕ) :
    p.parentFor pop v { x with draw } = sample p.cfg (p.multiplier pop) x.currentId v draw := by
  rw [Planning.parentFor, route_draw, h]

theorem vetoTotal_select (hpassed : v.passedCandidates ≠ []) (h : p.route pop x = .select) :
    (∀ draw, MayDraw p.cfg (p.multiplier pop) v draw → VetoTotal p pop v { x with draw }) ↔
      (Available pop p.vetoed v → Spares p pop v x) ∧
      (AllVetoed pop p.vetoed v → p.cfg.strategy = .seedOnly ∧ ∀ c ∈ v.passedCandidates, c.generation ≠ 0) := by
  rw [spares_iff, ← firstSeed_eq_none]
  constructor
  · intro htotal
    constructor
    · intro havailable c hpick
      obtain ⟨draw, hdraw, hc⟩ := (mayPick_iff (passed_of_pool hpassed)).mp hpick
      apply (htotal draw hdraw).chosen havailable c
      rw [parentFor_select h, hc]
    · intro hall
      obtain ⟨draw, hdraw⟩ := exists_mayDraw p.cfg (p.multiplier pop) v
      rw [← sample_none x.currentId hpassed hdraw, ← parentFor_select h draw]
      exact (htotal draw hdraw).all h hall
  · intro hstate draw hdraw
    constructor
    · intro havailable c hc
      rw [parentFor_select h] at hc
      exact hstate.1 havailable c ((mayPick_iff (passed_of_pool hpassed)).mpr ⟨draw, hdraw, hc⟩)
    · intro _ hall
      rw [parentFor_select h]
      exact (sample_none x.currentId hpassed hdraw).mpr (hstate.2 hall)

/-- On every population, whatever is vetoed and whatever the strategy: a plan keeps the veto for every draw exactly
when the state it is made in says so. -/
theorem veto_total (p : Planning) (pop : List Candidate) (generation slot : ℕ) (x : Chance) :
    (∀ v, p.pickIsland pop generation slot = some v →
      ∀ draw, MayDraw p.cfg (p.multiplier pop) v draw → VetoTotal p pop v { x with draw }) ↔
    ∀ v, p.pickIsland pop generation slot = some v → VetoHolds p pop v x := by
  have hisland : ∀ v, p.pickIsland pop generation slot = some v →
      ((∀ draw, MayDraw p.cfg (p.multiplier pop) v draw → VetoTotal p pop v { x with draw }) ↔ VetoHolds p pop v x) := by
    intro v hv
    have hpassed := pickIsland_passed hv
    obtain ⟨first, hfirst⟩ := exists_mayDraw p.cfg (p.multiplier pop) v
    cases hroute : p.route pop x with
    | merge base =>
      constructor
      · intro htotal
        have hbase := (vetoTotal_merge (by rw [route_draw, hroute])).mp (htotal first hfirst)
        refine ⟨fun b hb => ?_, fun f hf => ?_, fun hs => ?_, fun hs => ?_⟩
        · rw [hroute] at hb
          cases hb
          exact hbase
        all_goals
          rw [hroute] at *
          contradiction
      · intro hholds draw _
        exact (vetoTotal_merge (by rw [route_draw, hroute])).mpr (hholds.merge base hroute)
    | repair failed =>
      constructor
      · intro htotal
        have hfailed := (vetoTotal_repair (by rw [route_draw, hroute])).mp (htotal first hfirst)
        refine ⟨fun b hb => ?_, fun f hf => ?_, fun hs => ?_, fun hs => ?_⟩
        · rw [hroute] at hb
          cases hb
        · rw [hroute] at hf
          cases hf
          exact hfailed
        all_goals
          rw [hroute] at hs
          cases hs
      · intro hholds draw _
        exact (vetoTotal_repair (by rw [route_draw, hroute])).mpr (hholds.repair failed hroute)
    | select =>
      rw [vetoTotal_select hpassed hroute]
      constructor
      · intro hstate
        refine ⟨fun b hb => ?_, fun f hf => ?_, fun _ => hstate.1, fun _ => hstate.2⟩
        · rw [hroute] at hb
          cases hb
        · rw [hroute] at hf
          cases hf
      · intro hholds
        exact ⟨hholds.selected hroute, hholds.all hroute⟩
  constructor
  · intro h v hv
    exact (hisland v hv).mp (h v hv)
  · intro h v hv
    exact (hisland v hv).mpr (h v hv)

def seedOnlyPopulation : List Candidate :=
  [{ id := "seed".toList, generation := 0, report := some ⟨1 / 2, true⟩, inArchive := true }]

def vetoedSeed : Planning where
  cfg := { sigmoid := fun _ => 1 / 2, power := fun _ => 1 }
  directives := [⟨.lineageVeto, ["seed".toList]⟩]

theorem vetoed_seed_chosen : ¬ ∀ (p : Planning) (pop : List Candidate) (generation slot : ℕ) (x : Chance) (v : IslandView),
    p.pickIsland pop generation slot = some v → MayDraw p.cfg (p.multiplier pop) v x.draw → VetoTotal p pop v x := by
  intro hclaim
  have hisland : vetoedSeed.pickIsland seedOnlyPopulation 1 0 = some ⟨0, seedOnlyPopulation⟩ := by decide +kernel
  have hprobabilities : probabilities vetoedSeed.cfg (vetoedSeed.multiplier seedOnlyPopulation)
      ⟨0, seedOnlyPopulation⟩ = some [1] := by decide +kernel
  have hdraw : MayDraw vetoedSeed.cfg (vetoedSeed.multiplier seedOnlyPopulation) ⟨0, seedOnlyPopulation⟩ 0 := by
    intro _ ps hps
    rw [hprobabilities] at hps
    cases hps
    exact ⟨1, rfl, one_pos⟩
  have htotal := hclaim vetoedSeed seedOnlyPopulation 1 0 {} _ hisland hdraw
  have hall : AllVetoed seedOnlyPopulation vetoedSeed.vetoed ⟨0, seedOnlyPopulation⟩ := by
    intro c hc
    rw [List.mem_singleton.mp hc]
    exact .self _ (by decide)
  have hnone := htotal.all rfl hall
  cases hnone

end EvoHarness.Core.Population
