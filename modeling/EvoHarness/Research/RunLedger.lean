import EvoHarness.Research.Spending
import Mathlib.Algebra.BigOperators.Group.List.Lemmas

/-! Runs of one experiment: what the meter of a run directory keeps from call to call, the
outcome each call appends, and the ledger the gate sums from these outcomes. -/
namespace EvoHarness.Research.RunLedger
open PyText Runs

@[ext]
structure RunDir where
  parent : Text
  name : Text
deriving DecidableEq

structure BudgetState where
  spentUsd : ℚ
  nCharges : ℕ
deriving DecidableEq

structure BudgetMeter where
  hardCapUsd : ℚ
  spentUsd : ℚ
  nCharges : ℕ

def BudgetMeter.init (hardCapUsd : ℚ) (state : Option BudgetState) : Except Text BudgetMeter :=
  if hardCapUsd ≤ 0 then .error "hard_cap_usd must be positive".toList
  else
    match state with
    | some s => .ok { hardCapUsd, spentUsd := s.spentUsd, nCharges := s.nCharges }
    | none => .ok { hardCapUsd, spentUsd := 0, nCharges := 0 }

def BudgetMeter.charge (meter : BudgetMeter) (usd : ℚ) : Except Text BudgetMeter :=
  if usd < 0 then .error "cannot charge a negative amount".toList
  else .ok { meter with spentUsd := meter.spentUsd + usd, nCharges := meter.nCharges + 1 }

def BudgetMeter.saved (meter : BudgetMeter) : BudgetState := ⟨meter.spentUsd, meter.nCharges⟩

/-- The charges of a search, each kept before the next: the state file at the end, and whether
no charge raised. -/
def chargeAll (meter : BudgetMeter) (state : Option BudgetState) : List ℚ → Option BudgetState × Bool
  | [] => (state, true)
  | usd :: rest =>
    match meter.charge usd with
    | .error _ => (state, false)
    | .ok meter => chargeAll meter (some meter.saved) rest

structure RunReport where
  stoppedReason : Text
  generationsCompleted : ℤ
  totalEvalCost : ℚ

/-- A call of `run_experiment`: its run directory and budget, whether the built triple has the
frozen hashes, what its search charges, and the report, unless the search raises. -/
structure RunCall where
  outputDir : RunDir
  budgetUsd : Option ℚ
  refsAgree : Bool := true
  charges : List ℚ
  report : Option RunReport
  now : ℚ := 0

def apiRun (state : Option BudgetState) (call : RunCall) : Option BudgetState × Option RunReport :=
  match call.budgetUsd with
  | none => (state, call.report)
  | some cap =>
    match BudgetMeter.init cap state with
    | .error _ => (state, none)
    | .ok meter =>
      let run := chargeAll meter state call.charges
      (run.1, if run.2 then call.report else none)

/-- What the disk holds: every `budget.json`, the directories that were run in, one entry for each
call, and the outcomes of the experiment. -/
structure Books where
  budgets : RunDir → Option BudgetState
  runDirs : List RunDir := []
  outcomes : List ExperimentOutcome := []

/-- `generations_planned` is the search's `num_generations`, which the frozen hashes fix. -/
def outcomeOf (experimentId : Text) (planned : ℤ) (call : RunCall) (report : RunReport) : ExperimentOutcome where
  experimentId
  runId := call.outputDir.name
  stoppedReason := report.stoppedReason
  generationsPlanned := planned
  generationsCompleted := report.generationsCompleted
  evalCostUsd := report.totalEvalCost
  createdAt := call.now

def runExperiment (experimentId : Text) (planned : ℤ) (books : Books) (call : RunCall) : Books :=
  if call.refsAgree = false then books
  else
    let run := apiRun (books.budgets call.outputDir) call
    { budgets := Function.update books.budgets call.outputDir run.1
      runDirs := books.runDirs ++ [call.outputDir]
      outcomes := books.outcomes ++ (run.2.map (outcomeOf experimentId planned call)).toList }

def budgetAt (runsRoot : Option Text) (books : Books) (runId : Text) : Option ℚ :=
  runsRoot.bind fun root => (books.budgets ⟨root, runId⟩).map (·.spentUsd)

def spentUsd (runsRoot : Option Text) (books : Books) : Spent :=
  books.outcomes.foldl (fun acc o => addOutcome runsRoot.isSome acc o (budgetAt runsRoot books o.runId))
    (spentStart runsRoot.isSome books.outcomes)

def budget {enc : Encoders} (fm : GateFormats) (spec : ExperimentSpec) (answered : List (Answered enc))
    (runsRoot : Option Text) (books : Books) : BudgetLedger :=
  ledgerOf (approvedUsd fm spec answered) (spentUsd runsRoot books)

/-- The metered total in the `budget.json` of a directory. -/
def Books.metered (books : Books) (dir : RunDir) : ℚ := ((books.budgets dir).map (·.spentUsd)).getD 0

def Books.total (books : Books) : ℚ := (books.runDirs.dedup.map books.metered).sum

def Right {enc : Encoders} (fm : GateFormats) (spec : ExperimentSpec) (answered : List (Answered enc))
    (runsRoot : Option Text) (books : Books) : Prop :=
  (budget fm spec answered runsRoot books).trusted = true →
    (budget fm spec answered runsRoot books).spentUsd = books.total

/-- What was charged by the end of a call is counted once: the directory stands under `runs_root` and, if
anything was charged there, exactly one call on it has returned by then. Elsewhere nothing was charged,
neither in the directory nor, if the call returns, in the one of its name under `runs_root`. -/
def CountedOnce (runsRoot : Option Text) (books : Books) (call : RunCall) : Prop :=
  call.refsAgree = true →
    let run := apiRun (books.budgets call.outputDir) call
    let charged := (run.1.map (·.spentUsd)).getD 0 ≠ 0
    if runsRoot = some call.outputDir.parent then
      charged → (books.outcomes.filter fun o => o.runId = call.outputDir.name).length + run.2.toList.length = 1
    else
      ¬ charged ∧ ∀ root ∈ runsRoot, run.2.isSome = true → books.metered ⟨root, call.outputDir.name⟩ = 0

/-- A sum over names with repetitions, when every directory but one that counts is named as often as it is
there: the sum over the directories, and the one directory as often as it is named more often than that. -/
theorem sum_named {α : Type*} [DecidableEq α] (f : α → ℚ) {named dirs : List α} {d : α}
    (hothers : ∀ m, m ≠ d → f m ≠ 0 → named.count m = if m ∈ dirs then 1 else 0) :
    (named.map f).sum = (dirs.dedup.map f).sum + ((named.count d : ℚ) - if d ∈ dirs then 1 else 0) * f d := by
  let all := insert d (named.toFinset ∪ dirs.toFinset)
  have hnamed : (named.map f).sum = ∑ m ∈ all, (named.count m : ℚ) * f m := by
    rw [Finset.sum_list_map_count]
    simp only [nsmul_eq_mul]
    apply Finset.sum_subset
    · intro m hm
      exact Finset.mem_insert_of_mem (Finset.mem_union_left _ hm)
    · intro m _ hm
      simp [List.count_eq_zero_of_not_mem (fun h => hm (List.mem_toFinset.mpr h))]
  have hdirs : (dirs.dedup.map f).sum = ∑ m ∈ all, (if m ∈ dirs then 1 else 0) * f m := by
    rw [← List.sum_toFinset f (List.nodup_dedup dirs)]
    have hset : dirs.dedup.toFinset = dirs.toFinset := by
      ext m
      simp
    rw [hset]
    simp only [ite_mul, one_mul, zero_mul, ← List.mem_toFinset]
    rw [Finset.sum_ite_mem, Finset.inter_eq_right.mpr]
    intro m hm
    exact Finset.mem_insert_of_mem (Finset.mem_union_right _ hm)
  have hdiff : ∑ m ∈ all, ((named.count m : ℚ) - if m ∈ dirs then 1 else 0) * f m =
      ((named.count d : ℚ) - if d ∈ dirs then 1 else 0) * f d := by
    apply Finset.sum_eq_single_of_mem d (Finset.mem_insert_self _ _)
    intro m _ hm
    by_cases hf : f m = 0
    · rw [hf, mul_zero]
    · rw [hothers m hm hf]
      simp
  rw [hnamed, hdirs, ← hdiff, ← Finset.sum_add_distrib]
  apply Finset.sum_congr rfl
  intro m _
  ring

def Books.named (runsRoot : Option Text) (books : Books) : List RunDir :=
  match runsRoot with
  | some root => books.outcomes.map fun o => ⟨root, o.runId⟩
  | none => []

variable {runsRoot : Option Text} {books : Books}

/-- A sum that is trusted after an outcome was trusted before it, and went up by what the meter shows. -/
theorem addOutcome_trusted {acc : Spent} {o : ExperimentOutcome} {b : Bool} {budget : Option ℚ}
    (h : (addOutcome b acc o budget).trusted = true) :
    b = true ∧ acc.trusted = true ∧ (addOutcome b acc o budget).spent = acc.spent + budget.getD 0 := by
  unfold addOutcome at h ⊢
  cases hmetered : meteredTotal b budget with
  | none =>
    rw [hmetered] at h
    simp at h
  | some m =>
    rw [hmetered] at h
    unfold meteredTotal at hmetered
    cases b with
    | false => simp at hmetered
    | true =>
      simp only [Bool.true_eq_false, if_false] at hmetered
      obtain ⟨hbudget, _⟩ := Option.filter_eq_some_iff.mp hmetered
      exact ⟨rfl, h, by rw [hbudget, Option.getD_some]⟩

theorem foldl_trusted {os : List ExperimentOutcome} {acc : Spent} {b : Bool} {budgets : ExperimentOutcome → Option ℚ}
    (h : (os.foldl (fun acc o => addOutcome b acc o (budgets o)) acc).trusted = true) :
    (os ≠ [] → b = true) ∧ acc.trusted = true ∧
      (os.foldl (fun acc o => addOutcome b acc o (budgets o)) acc).spent =
        acc.spent + (os.map fun o => (budgets o).getD 0).sum := by
  induction os generalizing acc with
  | nil => exact ⟨fun hne => absurd rfl hne, h, by simp⟩
  | cons o os ih =>
    obtain ⟨_, hacc, hspent⟩ := ih h
    obtain ⟨hb, hstart, hadd⟩ := addOutcome_trusted hacc
    refine ⟨fun _ => hb, hstart, ?_⟩
    rw [List.foldl_cons, hspent, hadd, List.map_cons, List.sum_cons, add_assoc]

theorem spentStart_spent (b : Bool) (os : List ExperimentOutcome) : (spentStart b os).spent = 0 := by
  unfold spentStart
  split <;> rfl

theorem spentUsd_trusted (h : (spentUsd runsRoot books).trusted = true) :
    (spentUsd runsRoot books).spent = ((books.named runsRoot).map books.metered).sum := by
  obtain ⟨hroot, _, hspent⟩ : (books.outcomes ≠ [] → _) ∧ _ ∧ _ := foldl_trusted h
  rw [spentUsd, hspent, spentStart_spent, zero_add]
  cases runsRoot with
  | none =>
    have hnone : books.outcomes = [] := by
      by_contra hne
      simpa using hroot hne
    simp [hnone, Books.named]
  | some root =>
    rw [Books.named, List.map_map]
    rfl

/-- Every directory that counts is named as often as it was run in, at most once. -/
def Once (runsRoot : Option Text) (books : Books) : Prop :=
  ∀ m, books.metered m ≠ 0 → (books.named runsRoot).count m = if m ∈ books.runDirs then 1 else 0

theorem named_append (os : List ExperimentOutcome) (budgets : RunDir → Option BudgetState) (dirs : List RunDir) :
    Books.named runsRoot ⟨budgets, dirs, books.outcomes ++ os⟩ =
      books.named runsRoot ++ Books.named runsRoot ⟨budgets, dirs, os⟩ := by
  cases runsRoot with
  | none => rfl
  | some root => simp [Books.named]

theorem count_named (budgets : RunDir → Option BudgetState) (dirs : List RunDir) (os : List ExperimentOutcome) (m : RunDir) :
    (Books.named (some m.parent) ⟨budgets, dirs, os⟩).count m = (os.filter fun o => o.runId = m.name).length := by
  rw [Books.named, List.count, List.countP_map, List.countP_eq_length_filter]
  congr 2
  funext o
  cases m
  rw [Bool.eq_iff_iff]
  simp

theorem not_mem_named {os : List ExperimentOutcome} {budgets : RunDir → Option BudgetState} {dirs : List RunDir} {m : RunDir}
    (h : runsRoot ≠ some m.parent) : m ∉ Books.named runsRoot ⟨budgets, dirs, os⟩ := by
  cases runsRoot with
  | none => simp [Books.named]
  | some root =>
    intro hm
    obtain ⟨o, _, rfl⟩ := List.mem_map.mp hm
    exact h rfl

section
variable {experimentId : Text} {planned : ℤ} {call : RunCall}

theorem runExperiment_runs (hrefs : call.refsAgree = true) :
    runExperiment experimentId planned books call =
      { budgets := Function.update books.budgets call.outputDir (apiRun (books.budgets call.outputDir) call).1
        runDirs := books.runDirs ++ [call.outputDir]
        outcomes := books.outcomes ++
          ((apiRun (books.budgets call.outputDir) call).2.map (outcomeOf experimentId planned call)).toList } := by
  simp [runExperiment, hrefs]

theorem Once.others (h : Once runsRoot books) (hrefs : call.refsAgree = true) {m : RunDir} (hm : m ≠ call.outputDir)
    (hname : runsRoot = some m.parent → m.name = call.outputDir.name →
      (apiRun (books.budgets call.outputDir) call).2.isSome = true → books.metered m = 0)
    (hpos : (runExperiment experimentId planned books call).metered m ≠ 0) :
    ((runExperiment experimentId planned books call).named runsRoot).count m =
      if m ∈ (runExperiment experimentId planned books call).runDirs then 1 else 0 := by
  rw [runExperiment_runs hrefs] at hpos ⊢
  have hbefore : books.metered m ≠ 0 := by simpa [Books.metered, Function.update_of_ne hm] using hpos
  have hdirs : m ∈ books.runDirs ++ [call.outputDir] ↔ m ∈ books.runDirs := by simp [hm]
  simp only [named_append, List.count_append, h m hbefore, hdirs]
  suffices hnew : m ∉ Books.named runsRoot ⟨_, _,
      ((apiRun (books.budgets call.outputDir) call).2.map (outcomeOf experimentId planned call)).toList⟩ by
    rw [List.count_eq_zero_of_not_mem hnew, add_zero]
  by_cases hroot : runsRoot = some m.parent
  · rw [hroot]
    intro hmem
    obtain ⟨o, ho, hm'⟩ := List.mem_map.mp hmem
    obtain ⟨report, hreport, rfl⟩ := Option.map_eq_some_iff.mp (Option.mem_toList.mp ho)
    exact hbefore (hname hroot (congrArg RunDir.name hm').symm (by rw [hreport]; rfl))
  · exact not_mem_named hroot

/-- The directory of the call, when it stands under `runs_root`. -/
theorem count_outputDir (hrefs : call.refsAgree = true) (hroot : runsRoot = some call.outputDir.parent) :
    ((runExperiment experimentId planned books call).named runsRoot).count call.outputDir =
      (books.outcomes.filter fun o => o.runId = call.outputDir.name).length +
        (apiRun (books.budgets call.outputDir) call).2.toList.length := by
  rw [runExperiment_runs hrefs, hroot, count_named, List.filter_append, List.length_append]
  congr 1
  cases (apiRun (books.budgets call.outputDir) call).2 with
  | none => rfl
  | some report => simp [outcomeOf]

theorem metered_outputDir (hrefs : call.refsAgree = true) :
    (runExperiment experimentId planned books call).metered call.outputDir =
      ((apiRun (books.budgets call.outputDir) call).1.map (·.spentUsd)).getD 0 := by
  simp only [runExperiment_runs hrefs, Books.metered, Function.update_self]

theorem mem_runDirs (hrefs : call.refsAgree = true) :
    call.outputDir ∈ (runExperiment experimentId planned books call).runDirs := by
  simp [runExperiment_runs hrefs]

theorem Once.step (h : Once runsRoot books) (hcall : CountedOnce runsRoot books call) :
    Once runsRoot (runExperiment experimentId planned books call) := by
  cases hrefs : call.refsAgree with
  | false => simpa [runExperiment, hrefs] using h
  | true =>
    have hcounted := hcall hrefs
    dsimp only at hcounted
    intro m hpos
    by_cases hroot : runsRoot = some call.outputDir.parent
    · rw [if_pos hroot] at hcounted
      by_cases hm : m = call.outputDir
      · subst hm
        rw [metered_outputDir hrefs] at hpos
        rw [count_outputDir hrefs hroot, if_pos (mem_runDirs hrefs), hcounted hpos]
      · apply h.others hrefs hm _ hpos
        intro hparent hname
        exact absurd (RunDir.ext (Option.some.inj (hparent.symm.trans hroot)) hname) hm
    · rw [if_neg hroot] at hcounted
      obtain ⟨hfree, hnamesake⟩ := hcounted
      have hm : m ≠ call.outputDir := by
        rintro rfl
        rw [metered_outputDir hrefs] at hpos
        exact hfree hpos
      apply h.others hrefs hm _ hpos
      intro hparent hname hreturns
      have := hnamesake m.parent hparent hreturns
      rwa [← hname] at this

variable {enc : Encoders} {fm : GateFormats} {spec : ExperimentSpec} {answered : List (Answered enc)}

theorem budget_spentUsd (h : (budget fm spec answered runsRoot books).trusted = true) :
    (budget fm spec answered runsRoot books).spentUsd = ((books.named runsRoot).map books.metered).sum :=
  spentUsd_trusted h

theorem Once.right (h : Once runsRoot books) : Right fm spec answered runsRoot books := by
  intro htrusted
  rw [budget_spentUsd htrusted, Books.total, sum_named books.metered (d := ⟨[], []⟩) (fun m _ => h m)]
  by_cases hzero : books.metered ⟨[], []⟩ = 0
  · rw [hzero, mul_zero, add_zero]
  · rw [h _ hzero]
    simp

/-- And a call under `runs_root` that is not counted once makes it wrong. -/
theorem Once.counted_of_right (h : Once runsRoot books) (hunder : ∀ root ∈ runsRoot, root = call.outputDir.parent)
    (htrusted : (budget fm spec answered runsRoot (runExperiment experimentId planned books call)).trusted = true)
    (hright : Right fm spec answered runsRoot (runExperiment experimentId planned books call)) :
    CountedOnce runsRoot books call := by
  intro hrefs
  dsimp only
  have hothers : ∀ m, m ≠ call.outputDir → (runExperiment experimentId planned books call).metered m ≠ 0 →
      ((runExperiment experimentId planned books call).named runsRoot).count m =
        if m ∈ (runExperiment experimentId planned books call).runDirs then 1 else 0 := by
    intro m hm hpos
    apply h.others hrefs hm _ hpos
    intro hroot hname
    exact absurd (RunDir.ext (hunder m.parent hroot) hname) hm
  have hsum := hright htrusted
  rw [budget_spentUsd htrusted, Books.total, sum_named _ hothers, if_pos (mem_runDirs hrefs), add_eq_left,
    metered_outputDir hrefs] at hsum
  by_cases hroot : runsRoot = some call.outputDir.parent
  · rw [if_pos hroot]
    intro hcharged
    rw [count_outputDir hrefs hroot] at hsum
    have hone := (mul_eq_zero.mp hsum).resolve_right hcharged
    exact_mod_cast sub_eq_zero.mp hone
  · rw [if_neg hroot]
    have hnone : runsRoot = none := by
      cases hr : runsRoot with
      | none => rfl
      | some root => exact absurd (by rw [hr, hunder root hr]) hroot
    subst hnone
    refine ⟨fun hcharged => ?_, fun root hmem => by simp at hmem⟩
    rw [Books.named, List.count_nil, Nat.cast_zero, zero_sub, neg_mul, one_mul, neg_eq_zero] at hsum
    exact hcharged hsum

end

def next (experimentId : Text) (planned : ℤ) (books : Books) (call : RunCall) : Option Books :=
  some (runExperiment experimentId planned books call)

/-- Whatever stood in the directories before: as long as every call is counted once, the ledger is right after
every call. And the first call under `runs_root` that is not makes a ledger wrong that is trusted. -/
theorem ledger_counts_each_run_once {enc : Encoders} (fm : GateFormats) (spec : ExperimentSpec)
    (answered : List (Answered enc)) (runsRoot : Option Text) (planned : ℤ) (budgets : RunDir → Option BudgetState)
    (calls : List RunCall) (h : Meets (next spec.experimentId planned) (CountedOnce runsRoot) { budgets } calls) :
    Everywhere (next spec.experimentId planned) (Right fm spec answered runsRoot) { budgets } calls ∧
      ∀ books call, run (next spec.experimentId planned) { budgets } calls = some books →
        (∀ root ∈ runsRoot, root = call.outputDir.parent) →
        (budget fm spec answered runsRoot (runExperiment spec.experimentId planned books call)).trusted = true →
        (Right fm spec answered runsRoot (runExperiment spec.experimentId planned books call) ↔
          CountedOnce runsRoot books call) := by
  have hstart : Once runsRoot ({ budgets } : Books) := by
    intro m _
    cases runsRoot <;> simp [Books.named]
  have hstep : ∀ books call books', Once runsRoot books → CountedOnce runsRoot books call →
      next spec.experimentId planned books call = some books' → Once runsRoot books' := by
    intro books call books' honce hcall hnext
    obtain rfl := Option.some.inj hnext
    exact honce.step hcall
  have honce := everywhere_of_meets hstep hstart h
  refine ⟨honce.mono fun _ => Once.right, ?_⟩
  intro books call hrun hunder htrusted
  have hbooks := everywhere_last honce hrun
  constructor
  · exact hbooks.counted_of_right hunder htrusted
  · intro hcall
    exact (hbooks.step hcall).right

def runOn (name : Text) (charges : List ℚ) : RunCall where
  outputDir := ⟨['r'], name⟩
  budgetUsd := some 1
  charges
  report := some ⟨"budget".toList, 1, 0⟩

theorem ledger_counts_two_runs :
    Everywhere (next ['e'] 2) (Right Spending.plainGateFormats Spending.tenDollars ([] : List (Answered Spending.plainEncoders))
      (some ['r'])) { budgets := fun _ => none } [runOn ['a'] [1], runOn ['b'] [1]] := by
  have hmeets : Meets (next ['e'] 2) (CountedOnce (some ['r'])) { budgets := fun _ => none }
      [runOn ['a'] [1], runOn ['b'] [1]] := by
    simp only [Meets, next, Option.some.injEq, forall_eq']
    refine ⟨?_, ?_, trivial⟩
    · intro _
      decide +kernel
    · intro _
      decide +kernel
  exact (ledger_counts_each_run_once Spending.plainGateFormats Spending.tenDollars [] (some ['r']) 2 (fun _ => none)
    [runOn ['a'] [1], runOn ['b'] [1]] hmeets).1

theorem resumed_run_counted_twice :
    ¬ Everywhere (next ['e'] 2) (Right Spending.plainGateFormats Spending.tenDollars ([] : List (Answered Spending.plainEncoders))
      (some ['r'])) { budgets := fun _ => none } [runOn ['a'] [1], runOn ['a'] []] := by
  intro h
  have hlast := everywhere_last h rfl
  exact absurd (hlast (by decide +kernel)) (by decide +kernel)

end EvoHarness.Research.RunLedger
