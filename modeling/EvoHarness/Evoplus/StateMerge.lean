import EvoHarness.Evoplus.Copies
import EvoHarness.Evoplus.Signatures
import EvoHarness.Library.Runs

/-! State merging: which blend is planned for an island, and the blends of a whole run. -/
namespace EvoHarness.Evoplus
open PyText Core.Population

/-- `round(q, digits)`: the nearest, and between two the even one. -/
def roundTo (digits : ℕ) (q : ℚ) : ℚ :=
  let scaled := q * 10 ^ digits
  let low := ⌊scaled⌋
  let rest := scaled - low
  (if rest < 1 / 2 ∨ rest = 1 / 2 ∧ low % 2 = 0 then low else low + 1 : ℤ) / 10 ^ digits

def Complementarity.isComplementary (o : Complementarity) : Bool := 0 < o.baseOnly && 0 < o.donorOnly

structure MergePlan where
  base : Stored
  donor : Stored
  ratio : ℚ
  overlap : Complementarity

structure MergeKey where
  base : Text
  donor : Text
  ratio : ℚ
deriving DecidableEq

def MergePlan.key (p : MergePlan) : MergeKey := ⟨p.base.id, p.donor.id, roundTo 4 p.ratio⟩

def MergePlan.stateDonors (p : MergePlan) : List (Text × ℚ) :=
  [(stateId p.base, roundTo 6 (1 - p.ratio)), (stateId p.donor, roundTo 6 p.ratio)]

structure StateMergePlanner where
  probability : ℚ := 3 / 20
  ratioChoices : List ℚ := [1 / 4, 1 / 2, 3 / 4]
  minGain : ℤ := 1
  donorFitnessFloor : ℚ := 1 / 2
  maxDonorCandidates : ℤ := 32
  probability_range : 0 ≤ probability ∧ probability ≤ 1
  ratioChoices_ne_nil : ratioChoices ≠ []
  ratio_range : ∀ ratio ∈ ratioChoices, 0 < ratio ∧ ratio < 1
  one_le_minGain : 1 ≤ minGain
  floor_range : 0 ≤ donorFitnessFloor ∧ donorFitnessFloor ≤ 1

def sliceTo {α : Type} (xs : List α) (n : ℤ) : List α :=
  if 0 ≤ n then xs.take n.toNat else xs.take (xs.length - n.natAbs)

namespace StateMergePlanner
variable (P : StateMergePlanner)

def pool (base : Stored) (passed : List Stored) : List Stored :=
  sliceTo ((passed.filter fun c => c.id ≠ base.id ∧ base.fitness * P.donorFitnessFloor ≤ c.fitness).mergeSort
    fun a b => b.fitness ≤ a.fitness) P.maxDonorCandidates

def overlapOf (baseSig : BehaviorSignature) (cand : Stored) : Option (Stored × Complementarity) :=
  match signatureOf cand.columns with
  | none => none
  | some sig =>
    match complementarity baseSig sig with
    | none => none
    | some overlap =>
      if overlap.isComplementary = true ∧ P.minGain ≤ overlap.donorOnly then some (cand, overlap) else none

def scored (baseSig : BehaviorSignature) (pool : List Stored) : List (Stored × Complementarity) :=
  (pool.filterMap (P.overlapOf baseSig)).mergeSort fun a b =>
    b.2.donorOnly < a.2.donorOnly ∨ b.2.donorOnly = a.2.donorOnly ∧ b.1.fitness ≤ a.1.fitness

def offers (view : List Stored) : List MergePlan :=
  let passed := passedRows view
  if passed.length < 2 then []
  else
    match bestRow view with
    | none => []
    | some base =>
      match signatureOf base.columns with
      | none => []
      | some baseSig =>
        if baseSig.passVector.all id then []
        else (P.scored baseSig (P.pool base passed)).flatMap fun d =>
          P.ratioChoices.map fun ratio => { base, donor := d.1, ratio, overlap := d.2 }

/-- `plan(island, rng)` for what `rng.random()` gives, with the keys that are remembered then. -/
def plan (attempted : List MergeKey) (view : List Stored) (roll : ℚ) : Option MergePlan × List MergeKey :=
  if P.probability ≤ roll then (none, attempted)
  else
    match (P.offers view).find? fun p => p.key ∉ attempted with
    | none => (none, attempted)
    | some p => (some p, FirstSeen.add attempted p.key)

def decisions (attempted : List MergeKey) : List (List Stored × ℚ) → List (Option MergePlan)
  | [] => []
  | (view, roll) :: asks =>
    let planned := P.plan attempted view roll
    planned.1 :: decisions planned.2 asks

end StateMergePlanner

def stateOf (attempted : List MergeKey) : List MergeKey :=
  attempted.mergeSort fun a b => a.base < b.base ∨ a.base = b.base ∧
    (a.donor < b.donor ∨ a.donor = b.donor ∧ a.ratio ≤ b.ratio)

/-- `set_state(state)`; each entry is three values, as `state` wrote them. -/
def setState (entries : List MergeKey) : List MergeKey := FirstSeen.addAll [] entries

/-- `saved` is the planner's part of the checkpoint, `executed` the blends that were planned. -/
structure MergeRun where
  rows : List Stored := []
  attempted : List MergeKey := []
  saved : Option (List MergeKey) := none
  executed : List MergePlan := []

inductive MergeEvent (σ : Type) where
  | rows (e : RowEvent σ)
  | plan (islandIdx : ℕ) (roll : ℚ)
  | checkpoint
  | resume

section
variable {σ : Type} (P : StateMergePlanner) (cfg : MigrationConfig) (g : Generator σ)

def mergeStep (w : MergeRun) : MergeEvent σ → Option MergeRun
  | .rows e => (rowStep cfg g w.rows e).map fun rows => { w with rows }
  | .plan islandIdx roll =>
    let planned := P.plan w.attempted (islandRows w.rows islandIdx) roll
    some { w with attempted := planned.2, executed := w.executed ++ planned.1.toList }
  | .checkpoint => some { w with saved := some (stateOf w.attempted) }
  | .resume => w.saved.map fun entries => { w with attempted := setState entries }

def TwoSided (p : MergePlan) : Prop :=
  ∃ b d, signatureOf p.base.columns = some b ∧ signatureOf p.donor.columns = some d ∧
    b.passVector.length = d.passVector.length ∧ (true, false) ∈ b.passVector.zip d.passVector ∧
    (false, true) ∈ b.passVector.zip d.passVector

structure GoodBlends (w : MergeRun) : Prop where
  two_states : ∀ p ∈ w.executed, stateId p.base ≠ stateId p.donor
  two_sided : ∀ p ∈ w.executed, TwoSided p
  restored : ∀ asks, P.decisions (setState (stateOf w.attempted)) asks = P.decisions w.attempted asks

def BoughtOnce (w : MergeRun) : Prop := (w.executed.map MergePlan.stateDonors).Nodup

/-- An offer that is of the states and weights of an executed blend is of its rows and of its rounded ratio,
and a checkpoint that is resumed from was taken after every blend of the run. -/
def NoOtherCopies (w : MergeRun) : MergeEvent σ → Prop
  | .plan islandIdx roll => roll < P.probability → ∀ p ∈ P.offers (islandRows w.rows islandIdx), ∀ e ∈ w.executed,
      e.stateDonors = p.stateDonors → e.key = p.key
  | .resume => ∀ entries, w.saved = some entries → ∀ e ∈ w.executed, e.key ∈ entries
  | _ => True

end

variable {P : StateMergePlanner} {view : List Stored} {p : MergePlan} {attempted attempted' : List MergeKey}

theorem mem_of_mem_sliceTo {α : Type} {xs : List α} {n : ℤ} {x : α} (h : x ∈ sliceTo xs n) : x ∈ xs := by
  unfold sliceTo at h
  split at h
  · exact List.mem_of_mem_take h
  · exact List.mem_of_mem_take h

theorem mem_of_complementarity {b d : BehaviorSignature} {o : Complementarity} (h : complementarity b d = some o)
    (htwo : o.isComplementary = true) : b.passVector.length = d.passVector.length ∧
      (true, false) ∈ b.passVector.zip d.passVector ∧ (false, true) ∈ b.passVector.zip d.passVector := by
  unfold complementarity at h
  split at h
  · exact nomatch h
  · next hlength =>
    split at h
    · exact nomatch h
    · cases h
      rw [Complementarity.isComplementary, Bool.and_eq_true, decide_eq_true_eq, decide_eq_true_eq,
        List.countP_pos_iff, List.countP_pos_iff] at htwo
      obtain ⟨⟨⟨a, a'⟩, ha, hbase⟩, ⟨c, c'⟩, hc, hdonor⟩ := htwo
      refine ⟨not_not.mp hlength, ?_, ?_⟩
      · cases a <;> cases a' <;> first | exact ha | exact nomatch hbase
      · cases c <;> cases c' <;> first | exact hc | exact nomatch hdonor

theorem overlapOf_some {baseSig : BehaviorSignature} {c : Stored} {d : Stored × Complementarity}
    (h : P.overlapOf baseSig c = some d) : d.1 = c ∧ ∃ sig, signatureOf c.columns = some sig ∧
      complementarity baseSig sig = some d.2 ∧ d.2.isComplementary = true := by
  unfold StateMergePlanner.overlapOf at h
  split at h
  · exact nomatch h
  · next sig hsig =>
    split at h
    · exact nomatch h
    · next overlap hoverlap =>
      split at h
      · next htwo =>
        cases h
        exact ⟨rfl, sig, hsig, hoverlap, htwo.1⟩
      · exact nomatch h

/-- What is offered is a blend of two passed rows of the view that differ on both sides. -/
theorem of_mem_offers (h : p ∈ P.offers view) :
    p.base ∈ passedRows view ∧ p.donor ∈ passedRows view ∧ TwoSided p := by
  unfold StateMergePlanner.offers at h
  dsimp only at h
  split at h
  · exact absurd h List.not_mem_nil
  · split at h
    · exact absurd h List.not_mem_nil
    · next base hbase =>
      split at h
      · exact absurd h List.not_mem_nil
      · next baseSig hsig =>
        split at h
        · exact absurd h List.not_mem_nil
        · obtain ⟨d, hd, hp⟩ := List.mem_flatMap.mp h
          obtain ⟨ratio, -, rfl⟩ := List.mem_map.mp hp
          rw [StateMergePlanner.scored, List.mem_mergeSort, List.mem_filterMap] at hd
          obtain ⟨c, hc, hoverlap⟩ := hd
          obtain ⟨hcand, sig, hdonor, hcompare, htwo⟩ := overlapOf_some hoverlap
          have hmem : c ∈ passedRows view := by
            have hpool := mem_of_mem_sliceTo hc
            rw [List.mem_mergeSort, List.mem_filter] at hpool
            exact hpool.1
          refine ⟨maxBy_mem _ hbase, hcand ▸ hmem, baseSig, sig, hsig, hcand ▸ hdonor, ?_⟩
          exact mem_of_complementarity hcompare htwo

theorem not_mem_zip_self (bits : List Bool) : (true, false) ∉ bits.zip bits := by
  induction bits with
  | nil => exact List.not_mem_nil
  | cons b bits ih =>
    rw [List.zip_cons_cons, List.mem_cons, not_or]
    exact ⟨by cases b <;> decide, ih⟩

theorem TwoSided.two_states {rows : List Stored} (h : TwoSided p) (hrows : Linked rows) (hbase : p.base ∈ rows)
    (hdonor : p.donor ∈ rows) : stateId p.base ≠ stateId p.donor := by
  intro hstate
  obtain ⟨b, d, hb, hd, -, hmem, -⟩ := h
  rw [hrows.columns_eq hbase hdonor hstate, hd] at hb
  cases hb
  exact not_mem_zip_self _ hmem

theorem plan_none_of_roll {roll : ℚ} (h : P.probability ≤ roll) : P.plan attempted view roll = (none, attempted) := by
  rw [StateMergePlanner.plan, if_pos h]

theorem plan_cases (view : List Stored) (attempted : List MergeKey) {roll : ℚ} (h : roll < P.probability) :
    ((∀ p ∈ P.offers view, p.key ∈ attempted) ∧ P.plan attempted view roll = (none, attempted)) ∨
    ∃ p ∈ P.offers view, p.key ∉ attempted ∧ P.plan attempted view roll = (some p, FirstSeen.add attempted p.key) := by
  rw [StateMergePlanner.plan, if_neg (not_le.mpr h)]
  cases hfind : (P.offers view).find? fun p => p.key ∉ attempted with
  | none =>
    refine .inl ⟨fun p hp => ?_, rfl⟩
    simpa using List.find?_eq_none.mp hfind p hp
  | some p => exact .inr ⟨p, List.mem_of_find?_eq_some hfind, by simpa using List.find?_some hfind, rfl⟩

theorem mem_add {k k' : MergeKey} : k ∈ FirstSeen.add attempted k' ↔ k ∈ attempted ∨ k = k' := by
  have hall : FirstSeen.add attempted k' = FirstSeen.addAll attempted [k'] := rfl
  rw [hall, FirstSeen.mem_addAll, List.mem_singleton]

theorem plan_congr (P : StateMergePlanner) (view : List Stored) (h : ∀ k, k ∈ attempted ↔ k ∈ attempted') (roll : ℚ) :
    (P.plan attempted view roll).1 = (P.plan attempted' view roll).1 ∧
      ∀ k, k ∈ (P.plan attempted view roll).2 ↔ k ∈ (P.plan attempted' view roll).2 := by
  unfold StateMergePlanner.plan
  have hsame : (fun p : MergePlan => decide (p.key ∉ attempted)) = fun p => decide (p.key ∉ attempted') := by
    funext p
    exact decide_eq_decide.mpr (not_congr (h p.key))
  rw [hsame]
  split
  · exact ⟨rfl, h⟩
  · split
    · exact ⟨rfl, h⟩
    · exact ⟨rfl, fun k => by rw [mem_add, mem_add, h]⟩

theorem decisions_congr (h : ∀ k, k ∈ attempted ↔ k ∈ attempted') (asks : List (List Stored × ℚ)) :
    P.decisions attempted asks = P.decisions attempted' asks := by
  induction asks generalizing attempted attempted' with
  | nil => rfl
  | cons ask asks ih =>
    obtain ⟨view, roll⟩ := ask
    obtain ⟨hplan, hkeys⟩ := plan_congr P view h roll
    rw [StateMergePlanner.decisions, StateMergePlanner.decisions, hplan, ih hkeys]

theorem mem_setState {entries : List MergeKey} {k : MergeKey} : k ∈ setState entries ↔ k ∈ entries := by
  rw [setState, FirstSeen.mem_addAll]
  exact or_iff_right List.not_mem_nil

theorem mem_stateOf {k : MergeKey} : k ∈ stateOf attempted ↔ k ∈ attempted := List.mem_mergeSort

theorem decisions_restored (attempted : List MergeKey) (asks : List (List Stored × ℚ)) :
    P.decisions (setState (stateOf attempted)) asks = P.decisions attempted asks :=
  decisions_congr (fun _ => mem_setState.trans mem_stateOf) asks

variable {σ : Type} {cfg : MigrationConfig} {g : Generator σ} {w w' : MergeRun}

/-- What a step adds to the blends that were executed: nothing, or an offer that was not remembered. -/
theorem mergeStep_executed {a : MergeEvent σ} (h : mergeStep P cfg g w a = some w') :
    w'.executed = w.executed ∨ ∃ islandIdx roll p, a = .plan islandIdx roll ∧ roll < P.probability ∧
      p ∈ P.offers (islandRows w.rows islandIdx) ∧ p.key ∉ w.attempted ∧ w'.executed = w.executed ++ [p] ∧
      w'.attempted = FirstSeen.add w.attempted p.key := by
  cases a with
  | rows e =>
    obtain ⟨rows, -, rfl⟩ := Option.map_eq_some_iff.mp h
    exact .inl rfl
  | plan islandIdx roll =>
    cases h
    by_cases hroll : roll < P.probability
    · rcases plan_cases (islandRows w.rows islandIdx) w.attempted hroll with
        ⟨-, hplan⟩ | ⟨p, hp, hkey, hplan⟩
      · exact .inl (by simp [hplan])
      · exact .inr ⟨islandIdx, roll, p, rfl, hroll, hp, hkey, by simp [hplan], by simp [hplan]⟩
    · exact .inl (by simp [plan_none_of_roll (not_lt.mp hroll)])
  | checkpoint =>
    cases h
    exact .inl rfl
  | resume =>
    obtain ⟨entries, -, rfl⟩ := Option.map_eq_some_iff.mp h
    exact .inl rfl

theorem Linked.mergeStep {a : MergeEvent σ} (hrows : Linked w.rows) (h : mergeStep P cfg g w a = some w') :
    Linked w'.rows := by
  cases a with
  | rows e =>
    obtain ⟨rows, hstep, rfl⟩ := Option.map_eq_some_iff.mp h
    exact hrows.step hstep
  | plan islandIdx roll =>
    cases h
    exact hrows
  | checkpoint =>
    cases h
    exact hrows
  | resume =>
    obtain ⟨entries, -, rfl⟩ := Option.map_eq_some_iff.mp h
    exact hrows

theorem row_of_offered {islandIdx : ℕ} (h : p ∈ P.offers (islandRows w.rows islandIdx)) :
    p.base ∈ w.rows ∧ p.donor ∈ w.rows :=
  ⟨(mem_passedRows.mp (of_mem_offers h).1).1, (mem_passedRows.mp (of_mem_offers h).2.1).1⟩

theorem GoodBlends.step {a : MergeEvent σ} (hrows : Linked w.rows) (hgood : GoodBlends P w)
    (h : mergeStep P cfg g w a = some w') : GoodBlends P w' := by
  have hall : ∀ p ∈ w'.executed, p ∈ w.executed ∨ TwoSided p ∧ stateId p.base ≠ stateId p.donor := by
    intro p hp
    rcases mergeStep_executed h with hsame | ⟨islandIdx, roll, q, -, -, hq, -, hsnoc, -⟩
    · exact .inl (hsame ▸ hp)
    · rw [hsnoc, List.mem_append, List.mem_singleton] at hp
      refine hp.imp_right ?_
      rintro rfl
      have htwo := (of_mem_offers hq).2.2
      exact ⟨htwo, htwo.two_states hrows (row_of_offered hq).1 (row_of_offered hq).2⟩
  constructor
  · intro p hp
    exact (hall p hp).elim (hgood.two_states p) And.right
  · intro p hp
    exact (hall p hp).elim (hgood.two_sided p) And.left
  · exact decisions_restored w'.attempted

def Remembered (w : MergeRun) : Prop := ∀ e ∈ w.executed, e.key ∈ w.attempted

theorem Remembered.step {a : MergeEvent σ} (hkeys : Remembered w) (hok : NoOtherCopies P w a)
    (h : mergeStep P cfg g w a = some w') : Remembered w' := by
  rcases mergeStep_executed h with hsame | ⟨islandIdx, roll, p, -, -, -, -, hsnoc, hadd⟩
  · cases a with
    | rows e =>
      obtain ⟨rows, -, rfl⟩ := Option.map_eq_some_iff.mp h
      exact hkeys
    | plan islandIdx roll =>
      cases h
      intro e he
      rw [hsame] at he
      dsimp only
      unfold StateMergePlanner.plan
      split
      · exact hkeys e he
      · split
        · exact hkeys e he
        · exact mem_add.mpr (.inl (hkeys e he))
    | checkpoint =>
      cases h
      exact hkeys
    | resume =>
      obtain ⟨entries, hsaved, rfl⟩ := Option.map_eq_some_iff.mp h
      exact fun e he => mem_setState.mpr (hok entries hsaved e he)
  · intro e he
    rw [hsnoc, List.mem_append, List.mem_singleton] at he
    rw [hadd, mem_add]
    exact he.imp (hkeys e) (congrArg MergePlan.key)

theorem BoughtOnce.step {a : MergeEvent σ} (honce : BoughtOnce w) (hkeys : Remembered w) (hok : NoOtherCopies P w a)
    (h : mergeStep P cfg g w a = some w') : BoughtOnce w' := by
  rcases mergeStep_executed h with hsame | ⟨islandIdx, roll, p, rfl, hroll, hp, hnew, hsnoc, -⟩
  · rw [BoughtOnce, hsame]
    exact honce
  · rw [BoughtOnce, hsnoc, List.map_append, List.map_singleton, List.nodup_append]
    refine ⟨honce, List.nodup_singleton _, ?_⟩
    intro x hx y hy hxy
    obtain ⟨e, he, rfl⟩ := List.mem_map.mp hx
    rw [List.mem_singleton.mp hy] at hxy
    exact hnew (hok hroll p hp e he hxy ▸ hkeys e he)

/-- Every blend of every run is of two states that differ on both sides, and a planner that is restored decides as before;
no blend is bought twice in a run without offers of other copies, resumed from checkpoints that have its blends. -/
theorem bought_once_without_copies (P : StateMergePlanner) (cfg : MigrationConfig) (g : Generator σ)
    (as : List (MergeEvent σ)) :
    (∀ w, Runs.run (mergeStep P cfg g) {} as = some w → GoodBlends P w) ∧
    (Runs.Meets (mergeStep P cfg g) (NoOtherCopies P) {} as → Runs.Everywhere (mergeStep P cfg g) BoughtOnce {} as) := by
  constructor
  · intro w hrun
    have hstart : Linked ({} : MergeRun).rows ∧ GoodBlends P {} :=
      ⟨linked_nil, ⟨fun _ h => (nomatch h), fun _ h => (nomatch h), decisions_restored []⟩⟩
    exact (Runs.run_invariant (I := fun w => Linked w.rows ∧ GoodBlends P w)
      (fun w a w' hw h => ⟨hw.1.mergeStep h, hw.2.step hw.1 h⟩) hstart hrun).2
  · intro hmeets
    have hstart : BoughtOnce {} ∧ Remembered {} := ⟨List.nodup_nil, fun _ h => nomatch h⟩
    exact (Runs.everywhere_of_meets (I := fun w => BoughtOnce w ∧ Remembered w)
      (fun w a w' hw hok h => ⟨hw.1.step hw.2 hok h, hw.2.step hok h⟩) hstart hmeets).mono fun w hw => hw.1

def planner : StateMergePlanner where
  ratioChoices := [1 / 4]
  probability_range := by norm_num
  ratioChoices_ne_nil := List.cons_ne_nil _ _
  ratio_range := by norm_num
  one_le_minGain := le_refl 1
  floor_range := by norm_num

def islands : MigrationConfig where
  numIslands := 2
  migrationInterval := 10
  migrationRate := 0
  share _ := 0

def graded (id : Text) (generation : ℕ) (fitness : ℚ) (signature : Text) : Stored :=
  { id, generation, report := some ⟨fitness, true⟩, columns := some signature, metadata := () }

def older : Stored := graded "a".toList 0 1 "01|".toList
def newer : Stored := graded "b".toList 1 2 "10|".toList
def olderCopy : Stored := seedCopy older "c".toList 1 0
def newerCopy : Stored := injectedRow newer "d".toList 1 0

def twoIslands : List (MergeEvent Unit) :=
  [.rows (.graded older), .rows (.seedCopy "a".toList "c".toList 1 0), .rows (.graded newer),
    .rows (.inject "b".toList "d".toList 1 0), .plan 0 0, .plan 1 0]

theorem offers_pair {r b : Stored} (hr : r.report = some ⟨1, true⟩) (hb : b.report = some ⟨2, true⟩)
    (hquarantined : r.quarantined = false ∧ b.quarantined = false) (hid : r.id ≠ b.id)
    (hsig : r.columns = some "01|".toList) (hsig' : b.columns = some "10|".toList) :
    planner.offers [r, b] = [⟨b, r, 1 / 4, ⟨0, 1, 1, 0⟩⟩] := by
  have hfitness : r.fitness = 1 := by rw [Candidate.fitness, hr]; rfl
  have hfitness' : b.fitness = 2 := by rw [Candidate.fitness, hb]; rfl
  have hpassed : passedRows [r, b] = [r, b] := by
    simp [passedRows, Candidate.passed, hr, hb, hquarantined]
  have hbest : bestRow [r, b] = some b := by
    rw [bestRow, hpassed]
    simp [maxBy, hfitness, hfitness']
  have hpool : planner.pool b [r, b] = [r] := by
    simp [StateMergePlanner.pool, hfitness, hfitness', hid, planner, sliceTo]
  have hoverlap : planner.overlapOf ⟨[true, false], []⟩ r = some (r, ⟨0, 1, 1, 0⟩) := by
    rw [StateMergePlanner.overlapOf, hsig]
    rfl
  have hscored : planner.scored ⟨[true, false], []⟩ [r] = [(r, ⟨0, 1, 1, 0⟩)] := by
    rw [StateMergePlanner.scored, List.filterMap_cons, hoverlap]
    exact List.mergeSort_singleton _
  have hread : signatureOf b.columns = some ⟨[true, false], []⟩ := by
    rw [hsig']
    rfl
  rw [StateMergePlanner.offers, hpassed, hbest]
  simp only [hread, hpool, hscored]
  rfl

theorem view_zero : islandRows [older, olderCopy, newer, newerCopy] 0 = [older, newer] := by
  exact List.mergeSort_of_pairwise (by decide)

theorem view_one : islandRows [older, olderCopy, newer, newerCopy] 1 = [olderCopy, newerCopy] := by
  exact List.mergeSort_of_pairwise (by decide)

theorem plan_of_offer {roll : ℚ} (hroll : roll < P.probability) (hoffers : P.offers view = [p])
    (hkey : p.key ∉ attempted) : P.plan attempted view roll = (some p, FirstSeen.add attempted p.key) := by
  rcases plan_cases view attempted hroll with ⟨hall, -⟩ | ⟨q, hq, -, hplan⟩
  · exact absurd (hall p (hoffers ▸ List.mem_singleton_self p)) hkey
  · rw [hoffers, List.mem_singleton] at hq
    rw [hplan, hq]

def firstBlend : MergePlan := ⟨newer, older, 1 / 4, ⟨0, 1, 1, 0⟩⟩
def secondBlend : MergePlan := ⟨newerCopy, olderCopy, 1 / 4, ⟨0, 1, 1, 0⟩⟩

def afterFirst : MergeRun where
  rows := [older, olderCopy, newer, newerCopy]
  attempted := [firstBlend.key]
  executed := [firstBlend]

theorem planner_rolls : 0 < planner.probability := by norm_num [planner]

theorem first_run : Runs.run (mergeStep planner islands firstOf) {} (twoIslands.take 5) = some afterFirst := by
  have hrows : Runs.run (mergeStep planner islands firstOf) {} (twoIslands.take 4) =
      some { rows := [older, olderCopy, newer, newerCopy] } := rfl
  have hoffers : planner.offers (islandRows [older, olderCopy, newer, newerCopy] 0) = [firstBlend] :=
    view_zero ▸ offers_pair rfl rfl ⟨rfl, rfl⟩ (by decide) rfl rfl
  have hsplit : twoIslands.take 5 = twoIslands.take 4 ++ [.plan 0 0] := rfl
  rw [hsplit, Runs.run_append]
  refine ⟨_, hrows, Runs.run_cons.mpr ⟨_, rfl, ?_⟩⟩
  rw [plan_of_offer planner_rolls hoffers List.not_mem_nil]
  rfl

theorem second_run : ∃ w, Runs.run (mergeStep planner islands firstOf) {} twoIslands = some w ∧
    w.executed = [firstBlend, secondBlend] := by
  have hoffers : planner.offers (islandRows afterFirst.rows 1) = [secondBlend] :=
    view_one ▸ offers_pair rfl rfl ⟨rfl, rfl⟩ (by decide) rfl rfl
  have hkey : secondBlend.key ∉ afterFirst.attempted := by
    intro hkey
    exact absurd (congrArg MergeKey.base (List.mem_singleton.mp hkey)) (by decide)
  have hsplit : twoIslands = twoIslands.take 5 ++ [.plan 1 0] := rfl
  rw [hsplit]
  refine ⟨_, Runs.run_append.mpr ⟨_, first_run, Runs.run_cons.mpr ⟨_, rfl, rfl⟩⟩, ?_⟩
  rw [plan_of_offer planner_rolls hoffers hkey]
  rfl

theorem copies_bought_twice : ¬ ∀ (P : StateMergePlanner) (cfg : MigrationConfig) (σ : Type) (g : Generator σ)
    (as : List (MergeEvent σ)) (w : MergeRun), Runs.run (mergeStep P cfg g) {} as = some w → GoodBlends P w ∧ BoughtOnce w := by
  intro h
  obtain ⟨w, hrun, hexecuted⟩ := second_run
  have honce := (h planner islands Unit firstOf twoIslands w hrun).2
  rw [BoughtOnce, hexecuted, List.map_cons, List.nodup_cons] at honce
  exact honce.1 (List.mem_singleton.mpr rfl)

def third : Stored := { older with id := "e".toList, islandIdx := 1 }
def fourth : Stored := { newer with id := "f".toList, islandIdx := 1 }

def secondIsland : List (MergeEvent Unit) :=
  [.rows (.graded older), .rows (.graded newer), .plan 0 0, .rows (.graded third), .rows (.graded fourth), .plan 1 0]

def paired : MergeRun := { rows := [older, newer] }
def bought : MergeRun := { rows := [older, newer], attempted := [firstBlend.key], executed := [firstBlend] }
def beside : MergeRun := { bought with rows := [older, newer, third, fourth] }

def otherBlend : MergePlan := ⟨fourth, third, 1 / 4, ⟨0, 1, 1, 0⟩⟩

theorem offers_paired : planner.offers (islandRows paired.rows 0) = [firstBlend] := by
  have hview : islandRows paired.rows 0 = [older, newer] := List.mergeSort_of_pairwise (by decide)
  exact hview ▸ offers_pair rfl rfl ⟨rfl, rfl⟩ (by decide) rfl rfl

theorem offers_beside : planner.offers (islandRows beside.rows 1) = [otherBlend] := by
  have hview : islandRows beside.rows 1 = [third, fourth] := List.mergeSort_of_pairwise (by decide)
  exact hview ▸ offers_pair rfl rfl ⟨rfl, rfl⟩ (by decide) rfl rfl

theorem paired_step : mergeStep planner islands firstOf paired (.plan 0 0) = some bought := by
  have hkey : firstBlend.key ∉ paired.attempted := List.not_mem_nil
  rw [mergeStep, plan_of_offer planner_rolls offers_paired hkey]
  rfl

theorem beside_step : ∃ w, mergeStep planner islands firstOf beside (.plan 1 0) = some w ∧
    w.executed = [firstBlend, otherBlend] := by
  have hkey : otherBlend.key ∉ beside.attempted := by
    intro hkey
    exact absurd (congrArg MergeKey.base (List.mem_singleton.mp hkey)) (by decide)
  refine ⟨_, rfl, ?_⟩
  rw [plan_of_offer planner_rolls offers_beside hkey]
  rfl

theorem otherBlend_donors : firstBlend.stateDonors.map Prod.fst ≠ otherBlend.stateDonors.map Prod.fst := by
  rw [MergePlan.stateDonors, MergePlan.stateDonors]
  decide

theorem two_bought_once : ∃ w, Runs.run (mergeStep planner islands firstOf) {} secondIsland = some w ∧
    w.executed = [firstBlend, otherBlend] ∧ GoodBlends planner w ∧ BoughtOnce w := by
  obtain ⟨w, hlast, hexecuted⟩ := beside_step
  have hfirst : Runs.run (mergeStep planner islands firstOf) {} (secondIsland.take 2) = some paired := rfl
  have hsplit : secondIsland = secondIsland.take 2 ++ (.plan 0 0 :: secondIsland.drop 3) := rfl
  have hrun : Runs.run (mergeStep planner islands firstOf) {} secondIsland = some w := by
    rw [hsplit]
    refine Runs.run_append.mpr ⟨_, hfirst, Runs.run_cons.mpr ⟨_, paired_step, ?_⟩⟩
    exact Runs.run_cons.mpr ⟨_, rfl, Runs.run_cons.mpr ⟨beside, rfl, Runs.run_cons.mpr ⟨w, hlast, rfl⟩⟩⟩
  have hmeets : Runs.Meets (mergeStep planner islands firstOf) (NoOtherCopies planner) {} secondIsland := by
    intro w₁ h₁
    obtain rfl : _ = w₁ := Option.some.inj h₁
    refine ⟨trivial, fun w₂ h₂ => ⟨trivial, fun w₃ h₃ => ⟨?_, fun w₄ h₄ => ⟨trivial, fun w₅ h₅ => ⟨trivial, fun w₆ _ => ?_⟩⟩⟩⟩⟩
    · obtain rfl : paired = w₂ := Option.some.inj h₂
      exact fun _ _ _ e he => absurd he List.not_mem_nil
    · obtain rfl : paired = w₂ := Option.some.inj h₂
      obtain rfl : bought = w₃ := Option.some.inj (paired_step.symm.trans h₃)
      obtain rfl : _ = w₄ := Option.some.inj h₄
      obtain rfl : beside = w₅ := Option.some.inj h₅
      refine ⟨fun _ p hp e he hsame => ?_, trivial⟩
      rw [offers_beside, List.mem_singleton] at hp
      obtain rfl : e = firstBlend := List.mem_singleton.mp he
      rw [hp] at hsame
      exact absurd (congrArg (List.map Prod.fst) hsame) otherBlend_donors
  have hblends := bought_once_without_copies planner islands firstOf secondIsland
  exact ⟨w, hrun, hexecuted, hblends.1 _ hrun, Runs.everywhere_last (hblends.2 hmeets) hrun⟩

end EvoHarness.Evoplus
