import EvoHarness.Library.PyText

/-! The objects of the proof graph and the rules that derive a status from what
hangs off a node. Nothing here touches storage or Lean. -/
namespace EvoHarness.Proof
open PyText

abbrev GoalId := ℕ
abbrev DecompositionId := ℕ
abbrev AttemptId := ℕ

inductive GoalStatus where
  | opened | proved | exhausted
  deriving DecidableEq, Repr

inductive DecompositionStatus where
  | proposed | accepted | rejectedByVerifier | rejectedByReviewer | completed
  deriving DecidableEq, Repr

inductive Outcome where
  | proved | taskFailed | budgetExhausted | timeout | infraFailed | interrupted
  deriving DecidableEq, Repr

def capabilityOutcomes : List Outcome := [.taskFailed, .timeout]
def noVerdictOutcomes : List Outcome := [.infraFailed, .interrupted, .budgetExhausted]
def terminalDecompositions : List DecompositionStatus := [.rejectedByVerifier, .completed]
def liveDecompositions : List DecompositionStatus := [.proposed, .accepted]

structure Goal where
  id : GoalId
  identity : Text
  statement : Text
  status : GoalStatus := .opened
  exhaustedAtBudget : Option ℚ := none
  exhaustedAtSolver : Option Text := none
  leaseOwner : Option Text := none
  leaseExpiresAt : Option ℚ := none
  leaseRunDir : Option Text := none
  deriving DecidableEq

structure Decomposition where
  id : DecompositionId
  goalId : GoalId
  subgoalIds : List GoalId := []
  status : DecompositionStatus := .proposed
  rejectedReason : Text := []
  deriving DecidableEq

structure Attempt where
  id : AttemptId
  goalId : GoalId
  outcome : Outcome
  proofText : Option Text := none
  runDir : Option Text := none
  evidenceRef : Option Text := none
  cost : ℚ := 0
  note : Text := []
  deriving DecidableEq

inductive Fault where
  | cycleError (message : Text)
  | valueError (message : Text)
  | keyError (message : Text)
  | integrityError (message : Text)
  | solverError (message : Text)
  deriving DecidableEq

/-- The identities proposed although they belong to ancestors, sorted, each once. -/
def repeatedIdentities (ancestors subgoals : List Text) : List Text :=
  ((ancestors.filter (· ∈ subgoals)).dedup).insertionSort (· ≤ ·)

def checkAcyclic (ancestors subgoals : List Text) : Except Fault Unit :=
  let repeated := repeatedIdentities ancestors subgoals
  if repeated = [] then .ok ()
  else .error (.cycleError ("decomposition proposes an ancestor as a subgoal: ".toList ++
    join ", ".toList repeated))

def goalStatusFrom (attemptOutcomes : List Outcome)
    (decompositionStatuses : List DecompositionStatus) (maxCapabilityAttempts : ℤ) : GoalStatus :=
  if .proved ∈ attemptOutcomes then .proved
  else if .completed ∈ decompositionStatuses then .proved
  else if decompositionStatuses.any (· ∈ liveDecompositions) then .opened
  else
    let tried := attemptOutcomes.countP (· ∈ capabilityOutcomes)
    if 0 < maxCapabilityAttempts ∧ maxCapabilityAttempts ≤ tried then .exhausted
    else .opened

def decompositionStatusFrom (current : DecompositionStatus)
    (subgoalStatuses : List GoalStatus) : DecompositionStatus :=
  if current ∈ terminalDecompositions then current
  else if current = .rejectedByReviewer then current
  else if current ≠ .accepted then current
  else if subgoalStatuses ≠ [] ∧ ∀ s ∈ subgoalStatuses, s = .proved then .completed
  else current

theorem mem_repeatedIdentities {ancestors subgoals : List Text} {i : Text} :
    i ∈ repeatedIdentities ancestors subgoals ↔ i ∈ ancestors ∧ i ∈ subgoals := by
  simp [repeatedIdentities]

theorem checkAcyclic_ok_iff {ancestors subgoals : List Text} :
    checkAcyclic ancestors subgoals = .ok () ↔ ∀ i ∈ subgoals, i ∉ ancestors := by
  have h : repeatedIdentities ancestors subgoals = [] ↔ ∀ i ∈ subgoals, i ∉ ancestors := by
    rw [List.eq_nil_iff_forall_not_mem]
    simp only [mem_repeatedIdentities, not_and]
    exact ⟨fun h i hi ha => h i ha hi, fun h i ha hi => h i hi ha⟩
  rw [← h]
  simp only [checkAcyclic]
  split <;> simp_all

theorem checkAcyclic_cases (ancestors subgoals : List Text) :
    checkAcyclic ancestors subgoals = .ok () ∨
      ∃ m, checkAcyclic ancestors subgoals = .error (.cycleError m) := by
  simp only [checkAcyclic]
  split
  · exact Or.inl rfl
  · exact Or.inr ⟨_, rfl⟩

theorem goalStatusFrom_proved_iff {os : List Outcome} {ds : List DecompositionStatus} {n : ℤ} :
    goalStatusFrom os ds n = .proved ↔ .proved ∈ os ∨ .completed ∈ ds := by
  simp only [goalStatusFrom]
  split
  · simp [*]
  · split
    · simp [*]
    · split
      · simp_all
      · split <;> simp_all

theorem decompositionStatusFrom_eq {c : DecompositionStatus} {ss : List GoalStatus} :
    decompositionStatusFrom c ss =
      if c = .accepted ∧ ss ≠ [] ∧ ∀ s ∈ ss, s = .proved then .completed else c := by
  unfold decompositionStatusFrom
  cases c <;> simp [terminalDecompositions]

end EvoHarness.Proof
