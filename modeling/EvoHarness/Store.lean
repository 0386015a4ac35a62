import EvoHarness.Sketch
import EvoHarness.Library.Search

/-! The graph's tables and the transactions that write them. The schema's own
constraints are fields, so a store that breaks one cannot be built: a row's id is
its place in its table (ids are fresh and no row is ever deleted), identities are
unique, and every reference names a row. Rows stand in order of creation. -/
namespace EvoHarness.Proof
open PyText

structure DecompositionRow extends Decomposition where
  sketch : Option Sketch := none
  deriving DecidableEq

def DecompositionRow.withStatus (status : DecompositionStatus) (reason : Text)
    (d : DecompositionRow) : DecompositionRow :=
  { d with status, rejectedReason := reason }

structure Store where
  goals : List Goal := []
  decompositions : List DecompositionRow := []
  attempts : List Attempt := []
  goal_ids : goals.map (·.id) = List.range goals.length := by rfl
  decomposition_ids : decompositions.map (·.id) = List.range decompositions.length := by rfl
  identity_unique : (goals.map (·.identity)).Nodup := by decide
  decomposition_goal : ∀ i ∈ decompositions.map (·.goalId), i < goals.length := by decide
  subgoal_goal : ∀ is ∈ decompositions.map (·.subgoalIds), ∀ i ∈ is, i < goals.length := by decide
  attempt_goal : ∀ a ∈ attempts, a.goalId < goals.length := by decide

theorem map_modify_of_eq {α β : Type} {g : α → β} {f : α → α} (hf : ∀ a, g (f a) = g a)
    (l : List α) (i : ℕ) : (l.modify i f).map g = l.map g := by
  apply List.ext_getElem?
  intro j
  simp only [List.getElem?_map, List.getElem?_modify, Option.map_eq_map, Option.map_map]
  congr 1
  funext a
  by_cases h : i = j <;> simp [h, hf]

theorem map_withStatus {β : Type} {g : DecompositionRow → β} {st : DecompositionStatus} {r : Text}
    (hg : ∀ d, g (d.withStatus st r) = g d) (l : List DecompositionRow) (i : ℕ) :
    (l.modify i (.withStatus st r)).map g = l.map g :=
  map_modify_of_eq hg l i

namespace Store

def empty : Store := {}

def goal (s : Store) (id : GoalId) : Option Goal := s.goals[id]?

def goalByIdentity (s : Store) (identity : Text) : Option Goal :=
  s.goals.find? (·.identity = identity)

def openGoals (s : Store) : List Goal := s.goals.filter (·.status = .opened)

def decomposition (s : Store) (id : DecompositionId) : Option DecompositionRow :=
  s.decompositions[id]?

def decompositionsOf (s : Store) (id : GoalId) : List DecompositionRow :=
  s.decompositions.filter (·.goalId = id)

def proposedDecompositions (s : Store) : List DecompositionRow :=
  s.decompositions.filter (·.status = .proposed)

def attemptsOf (s : Store) (id : GoalId) : List Attempt := s.attempts.filter (·.goalId = id)

def totalCost (s : Store) : ℚ := (s.attempts.map (·.cost)).sum

def parentsOf (s : Store) (id : GoalId) : List GoalId :=
  ((s.decompositions.filter (id ∈ ·.subgoalIds)).map (·.goalId)).dedup

def subgoalsBelow (s : Store) (id : GoalId) : List GoalId :=
  (s.decompositionsOf id).flatMap (·.subgoalIds)

def identityOf (s : Store) (id : GoalId) : Text := ((s.goal id).map (·.identity)).getD []

def ancestorIdentities (s : Store) (id : GoalId) : List Text :=
  (Search.explore s.identityOf s.parentsOf (s.goals.length + 1) ⟨[], [id]⟩).seen

def reachableFrom (s : Store) (id : GoalId) : List GoalId :=
  (Search.explore (fun i => i) s.subgoalsBelow (s.goals.length + 1) ⟨[id], [id]⟩).seen

def noSuchGoal (id : GoalId) : Fault := .keyError ("no such goal: ".toList ++ (toString id).toList)
def foreignKeyFailed : Fault := .integrityError "FOREIGN KEY constraint failed".toList

def insertGoal (s : Store) (identity statement : Text) : Store :=
  if h : identity ∈ s.goals.map (·.identity) then s
  else
    { s with
      goals := s.goals ++ [{ id := s.goals.length, identity, statement }]
      goal_ids := by simp [s.goal_ids, List.range_succ]
      identity_unique := by
        rw [List.map_append, List.nodup_append]
        refine ⟨s.identity_unique, List.nodup_singleton _, ?_⟩
        intro a ha b hb hab
        simp only [List.map_cons, List.map_nil, List.mem_singleton] at hb
        exact h (hb ▸ hab ▸ ha)
      decomposition_goal := fun d hd => by
        rw [List.length_append]; exact Nat.lt_add_right 1 (s.decomposition_goal d hd)
      subgoal_goal := fun d hd i hi => by
        rw [List.length_append]; exact Nat.lt_add_right 1 (s.subgoal_goal d hd i hi)
      attempt_goal := fun a ha => by
        rw [List.length_append]; exact Nat.lt_add_right 1 (s.attempt_goal a ha) }

/-- An `UPDATE goals` that touches neither of the row's keys. -/
def updateGoal (s : Store) (id : GoalId) (f : Goal → Goal) (hid : ∀ g, (f g).id = g.id)
    (hident : ∀ g, (f g).identity = g.identity) : Store :=
  { s with
    goals := s.goals.modify id f
    goal_ids := by rw [map_modify_of_eq hid, List.length_modify, s.goal_ids]
    identity_unique := by rw [map_modify_of_eq hident]; exact s.identity_unique
    decomposition_goal := by simpa using s.decomposition_goal
    subgoal_goal := by simpa using s.subgoal_goal
    attempt_goal := by simpa using s.attempt_goal }

def setGoalStatus (s : Store) (id : GoalId) (status : GoalStatus) (budget : Option ℚ)
    (solver : Option Text) : Store :=
  s.updateGoal id
    (fun g => { g with status, exhaustedAtBudget := budget, exhaustedAtSolver := solver })
    (fun _ => rfl) (fun _ => rfl)

def setLease (s : Store) (id : GoalId) (owner : Option Text) (expires : Option ℚ)
    (runDir : Option Text) : Store :=
  s.updateGoal id
    (fun g => { g with leaseOwner := owner, leaseExpiresAt := expires, leaseRunDir := runDir })
    (fun _ => rfl) (fun _ => rfl)

def setDecompositionStatus (s : Store) (id : DecompositionId) (status : DecompositionStatus)
    (reason : Text := []) : Store :=
  { s with
    decompositions := s.decompositions.modify id (.withStatus status reason)
    decomposition_ids := by rw [map_withStatus fun _ => rfl, List.length_modify, s.decomposition_ids]
    decomposition_goal := by rw [map_withStatus fun _ => rfl]; exact s.decomposition_goal
    subgoal_goal := by rw [map_withStatus fun _ => rfl]; exact s.subgoal_goal }

def idOf (s : Store) (identity : Text) : GoalId :=
  s.goals.findIdx (·.identity = identity)

def insertSubgoals : Store → List (Text × Text) → Store × List GoalId
  | s, [] => (s, [])
  | s, (identity, statement) :: rest =>
    let s₁ := s.insertGoal identity statement
    let later := insertSubgoals s₁ rest
    (later.1, s₁.idOf identity :: later.2)

def insertDecomposition (s : Store) (goalId : GoalId) (subgoalIds : List GoalId)
    (sketch : Option Sketch) (status : DecompositionStatus) : Option Store :=
  if h : goalId < s.goals.length ∧ ∀ i ∈ subgoalIds, i < s.goals.length then
    some { s with
      decompositions := s.decompositions ++
        [{ id := s.decompositions.length, goalId, subgoalIds, status, sketch }]
      decomposition_ids := by simp [s.decomposition_ids, List.range_succ]
      decomposition_goal := by simpa [or_imp, forall_and, h.1] using s.decomposition_goal
      subgoal_goal := by
        simpa [or_imp, forall_and] using And.intro s.subgoal_goal h.2 }
  else none

/-- The write transaction of `add_decomposition`: subgoals, row and edges together,
or nothing at all. -/
def writeDecomposition (s : Store) (goalId : GoalId) (subgoals : List (Text × Text))
    (sketch : Option Sketch) (status : DecompositionStatus := .proposed) : Except Fault Store :=
  let inserted := s.insertSubgoals subgoals
  match inserted.1.insertDecomposition goalId inserted.2 sketch status with
  | some s' => .ok s'
  | none => .error foreignKeyFailed

def checkDecomposition (s : Store) (goalId : GoalId) (subgoals : List (Text × Text)) :
    Except Fault Unit :=
  if subgoals = [] then
    .error (.valueError "a decomposition with no subgoals would complete vacuously".toList)
  else match s.goal goalId with
    | none => .error (noSuchGoal goalId)
    | some parent =>
      checkAcyclic (parent.identity :: s.ancestorIdentities goalId) (subgoals.map Prod.fst)

def addDecomposition (s : Store) (goalId : GoalId) (subgoals : List (Text × Text))
    (sketch : Option Sketch) : Except Fault Store :=
  match s.checkDecomposition goalId subgoals with
  | .ok () => s.writeDecomposition goalId subgoals sketch
  | .error e => .error e

def recordAttempt (s : Store) (a : Attempt) : Except Fault Store :=
  if h : a.goalId < s.goals.length then
    .ok { s with
      attempts := s.attempts ++ [{ a with id := s.attempts.length }]
      attempt_goal := by
        intro b hb
        rcases List.mem_append.mp hb with hb | hb
        · exact s.attempt_goal b hb
        · rw [List.mem_singleton.mp hb]; exact h }
  else .error foreignKeyFailed

def leaseFree (g : Goal) (now : ℚ) : Bool :=
  g.leaseOwner = none || match g.leaseExpiresAt with
    | none => true
    | some t => t ≤ now

def claim (s : Store) (id : GoalId) (owner : Text) (ttl now : ℚ) : Store × Bool :=
  match s.goal id with
  | none => (s, false)
  | some g =>
    if leaseFree g now then (s.setLease id (some owner) (some (now + ttl)) none, true)
    else (s, false)

def leaseStale (g : Goal) (now : ℚ) : Bool :=
  g.leaseOwner ≠ none && match g.leaseExpiresAt with
    | none => false
    | some t => t ≤ now

def staleLeases (s : Store) (now : ℚ) : List Goal := s.goals.filter (leaseStale · now)

def noteAttemptDir (s : Store) (id : GoalId) (runDir : Text) : Store :=
  s.updateGoal id (fun g => { g with leaseRunDir := some runDir }) (fun _ => rfl) (fun _ => rfl)

def forceRelease (s : Store) (id : GoalId) : Store := s.setLease id none none none

def release (s : Store) (id : GoalId) (owner : Text) : Store :=
  match s.goal id with
  | none => s
  | some g => if g.leaseOwner = some owner then s.setLease id none none none else s

end Store
end EvoHarness.Proof
