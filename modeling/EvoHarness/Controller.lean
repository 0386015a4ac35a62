import EvoHarness.Store
import EvoHarness.Solver
import EvoHarness.Library.Hoare

/-! The controller as a program over one graph: pick a goal, attack it, propagate,
decompose when direct proving fails. Everything the controller is handed (solver,
decomposition source, sketch validator, clock) answers out of one state of its own,
so any sequence of answers is some environment. -/
namespace EvoHarness.Proof
open PyText Hoare

/-- A state of the database, with the decompositions the validator had passed by then. -/
structure Snapshot where
  store : Store
  validated : List DecompositionId := []

/-- The world of one process. `history` keeps every state a transaction committed. -/
structure World (σ : Type) extends Snapshot where
  env : σ
  history : List Snapshot := []

structure Env (σ : Type) where
  /-- The run directory told to the graph, and how the attack ended, if it did not raise. -/
  attack : Goal → ℚ → σ → (Option Text × Except Text AttemptResult) × σ
  propose : Goal → σ → Option Sketch × σ
  /-- `.error` is `SketchUnavailable`: no verdict on the sketch. -/
  validateSketch : Goal → Sketch → σ → Except Text Validation × σ
  now : σ → ℚ × σ
  select : List Goal → Option Goal
  select_mem : ∀ gs g, select gs = some g → g ∈ gs
  level : Text

structure Config where
  owner : Text
  maxCapabilityAttempts : ℤ := 3
  maxConsecutiveInfra : ℤ := 5
  leaseTtl : ℚ := 600
  decomposeRootFirst : Bool := false

def selectFirstOpen (goals : List Goal) : Option Goal := goals.head?

structure DecompositionOutcome where
  accepted : ℕ := 0
  rejected : ℕ := 0
  cycles : ℕ := 0
  deferred : ℕ := 0
  deriving DecidableEq

def DecompositionOutcome.add (a b : DecompositionOutcome) : DecompositionOutcome :=
  ⟨a.accepted + b.accepted, a.rejected + b.rejected, a.cycles + b.cycles, a.deferred + b.deferred⟩

structure SolveReport where
  rootProved : Bool
  stoppedReason : Text
  iterations : ℕ
  spent : ℚ
  attempts : ℕ
  decompositionsAccepted : ℕ
  decompositionsRejected : ℕ
  cyclesRefused : ℕ

abbrev Ctl (σ : Type) (α : Type) := Prog (World σ) Fault α

variable {σ : Type}

def read : Ctl σ Store := fun w => (.ok w.store, w)

def commit (s : Store) : Ctl σ Unit :=
  Prog.modify fun w => { w with store := s, history := ⟨s, w.validated⟩ :: w.history }

def ask {α : Type} (f : σ → α × σ) : Ctl σ α :=
  Prog.call fun w => ((f w.env).1, { w with env := (f w.env).2 })

def noteValidated (id : DecompositionId) : Ctl σ Unit :=
  Prog.modify fun w => { w with validated := id :: w.validated }

def lookup {α : Type} (e : Fault) : Option α → Ctl σ α
  | some a => Prog.pure a
  | none => Prog.raise e

def perform : Except Fault Store → Ctl σ Unit
  | .ok s => commit s
  | .error e => Prog.raise e

/-- `self.goal(id).status`; the schema keeps `id` a row's. -/
def Store.statusOf (s : Store) (id : GoalId) : GoalStatus :=
  ((s.goal id).map (·.status)).getD .opened

def advance : List DecompositionRow → Ctl σ (List DecompositionStatus)
  | [] => pure []
  | d :: ds => do
    let s ← read
    let new := decompositionStatusFrom d.status (d.subgoalIds.map s.statusOf)
    if new ≠ d.status then commit (s.setDecompositionStatus d.id new)
    let rest ← advance ds
    pure (new :: rest)

/-- One turn of the work queue: the parents to recompute, none if the status stood. -/
def visit (maxAttempts : ℤ) (budgetSpent : ℚ) (solverLevel : Text) (id : GoalId) :
    Ctl σ (List GoalId) := do
  let s ← read
  let current ← lookup (Store.noSuchGoal id) (s.goal id)
  let advanced ← advance (s.decompositionsOf id)
  let status := goalStatusFrom ((s.attemptsOf id).map (·.outcome)) advanced maxAttempts
  if status = current.status then pure []
  else do
    let s ← read
    if status = .exhausted then
      commit (s.setGoalStatus id status (some budgetSpent) (some solverLevel))
    else commit (s.setGoalStatus id status none none)
    pure (s.parentsOf id)

/-- `pending`, its last element first, and what is left of it when the fuel runs out. -/
def propagateLoop (maxAttempts : ℤ) (budgetSpent : ℚ) (solverLevel : Text) :
    ℕ → List GoalId → Ctl σ (List GoalId)
  | 0, pending => pure pending
  | _ + 1, [] => pure []
  | n + 1, id :: pending => do
    let parents ← visit maxAttempts budgetSpent solverLevel id
    propagateLoop maxAttempts budgetSpent solverLevel n (parents.reverse ++ pending)

def propagateFuel (s : Store) : ℕ :=
  (s.decompositions.length + s.goals.length) * (s.goals.length + 1) + 1

def propagate (maxAttempts : ℤ) (budgetSpent : ℚ) (solverLevel : Text) (id : GoalId) :
    Ctl σ Unit := do
  let s ← read
  let _ ← propagateLoop maxAttempts budgetSpent solverLevel (propagateFuel s) [id]
  pure ()

variable (env : Env σ) (cfg : Config)

def propagateFrom (id : GoalId) : Ctl σ Unit := do
  let s ← read
  propagate cfg.maxCapabilityAttempts s.totalCost env.level id

def verdictStatus (v : Validation) : DecompositionStatus :=
  if v.ok then .accepted else .rejectedByVerifier

def writeVerdict (goalId : GoalId) (id : DecompositionId) (v : Validation) : Ctl σ Unit := do
  let s ← read
  commit (s.setDecompositionStatus id (verdictStatus v) v.reason)
  propagateFrom env cfg goalId

def settle (goalId : GoalId) (id : DecompositionId) (v : Validation) : Ctl σ DecompositionOutcome :=
  if v.ok then do
    noteValidated id
    writeVerdict env cfg goalId id v
    pure { accepted := 1 }
  else do
    writeVerdict env cfg goalId id v
    pure { rejected := 1 }

def recordDecomposition (goal : Goal) (sketch : Sketch) : Ctl σ DecompositionOutcome := do
  let s ← read
  match s.addDecomposition goal.id (sketch.subgoals.map fun p => (p.identity, p.signature))
      (some sketch) with
  | .error (.cycleError _) => pure { cycles := 1 }
  | .error e => Prog.raise e
  | .ok s' => do
    commit s'
    let verdict ← ask (env.validateSketch goal sketch)
    match verdict with
    | .error _ => pure { deferred := 1 }
    | .ok v => settle env cfg goal.id s.decompositions.length v

def maybeDecompose (goal : Goal) : Ctl σ DecompositionOutcome := do
  let proposed ← ask (env.propose goal)
  match proposed with
  | none => pure {}
  | some sketch => recordDecomposition env cfg goal sketch

def revalidateOne (d : DecompositionRow) : Ctl σ DecompositionOutcome := do
  match d.sketch with
  | none => do
    let s ← read
    commit (s.setDecompositionStatus d.id .rejectedByVerifier
      "the decomposition was recorded without a sketch".toList)
    pure { rejected := 1 }
  | some sketch => do
    let s ← read
    let goal ← lookup (Store.noSuchGoal d.goalId) (s.goal d.goalId)
    let verdict ← ask (env.validateSketch goal sketch)
    match verdict with
    | .error _ => pure { deferred := 1 }
    | .ok v => settle env cfg goal.id d.id v

def revalidateEach : List DecompositionRow → DecompositionOutcome → Ctl σ DecompositionOutcome
  | [], totals => pure totals
  | d :: ds, totals => do
    let one ← revalidateOne env cfg d
    revalidateEach ds (totals.add one)

def revalidateProposed : Ctl σ DecompositionOutcome := do
  let s ← read
  revalidateEach env cfg s.proposedDecompositions {}

def interruptedNote (g : Goal) : Text :=
  "lease held by ".toList ++ g.leaseOwner.getD "None".toList ++ " expired without release".toList

def recoverOne (g : Goal) : Ctl σ Unit := do
  let s ← read
  perform (s.recordAttempt ((AttemptResult.interrupted g.leaseRunDir (interruptedNote g)).toAttempt g.id))
  let s ← read
  commit (s.forceRelease g.id)
  propagateFrom env cfg g.id

def recoverStale (now : ℚ) : Ctl σ (List GoalId) := do
  let s ← read
  Prog.forEach (s.staleLeases now) (recoverOne env cfg)
  pure ((s.staleLeases now).map (·.id))

def recover (now : Option ℚ) : Ctl σ (List GoalId) := do
  let _ ← revalidateProposed env cfg
  match now with
  | some t => recoverStale env cfg t
  | none => do
    let t ← ask env.now
    recoverStale env cfg t

def actionableGoals (s : Store) (scope : List GoalId) : List Goal :=
  s.openGoals.filter fun g =>
    g.id ∈ scope && !(s.decompositionsOf g.id).any (·.status ∈ liveDecompositions)

/-- Skip past goals somebody else holds. Each turn drops the goal it tried, so as many
turns as there are candidates see them all. -/
def claimNext : ℕ → List Goal → Ctl σ (Option Goal)
  | 0, _ => pure none
  | n + 1, candidates =>
    match env.select candidates with
    | none => pure none
    | some choice => do
      let now ← ask env.now
      let s ← read
      let claimed := s.claim choice.id cfg.owner cfg.leaseTtl now
      commit claimed.1
      if claimed.2 then pure (some choice)
      else claimNext n (candidates.filter (·.id ≠ choice.id))

structure Progress where
  iterations : ℕ := 0
  attempts : ℕ := 0
  counted : DecompositionOutcome := {}
  consecutiveInfra : ℕ := 0
  scope : List GoalId := []

inductive Next where
  | again (p : Progress)
  | stop (reason : Text) (p : Progress)

def decomposeAndRescope (root : GoalId) (goal : Goal) (p : Progress) : Ctl σ Progress := do
  let counted ← maybeDecompose env cfg goal
  let s ← read
  pure { p with counted := p.counted.add counted, scope := s.reachableFrom root }

/-- `on_attempt_dir`, called by the solver before it works. -/
def noteDir (id : GoalId) : Option Text → Ctl σ Unit
  | none => pure ()
  | some dir => do
    let s ← read
    commit (s.noteAttemptDir id dir)

def judge (root : GoalId) (goal : Goal) (p : Progress) (result : AttemptResult) : Ctl σ Next := do
  let s ← read
  perform (s.recordAttempt (result.toAttempt goal.id))
  let p := { p with attempts := p.attempts + 1 }
  propagateFrom env cfg goal.id
  if result.outcome ∈ noVerdictOutcomes then
    if result.outcome = .infraFailed then
      let p := { p with consecutiveInfra := p.consecutiveInfra + 1 }
      if cfg.maxConsecutiveInfra ≤ p.consecutiveInfra then pure (.stop "infra".toList p)
      else pure (.again p)
    else if result.outcome = .budgetExhausted then pure (.stop "budget".toList p)
    else pure (.again p)
  else do
    let p := { p with consecutiveInfra := 0 }
    if result.outcome = .proved then pure (.again p)
    else do
      let p ← decomposeAndRescope env cfg root goal p
      pure (.again p)

def attackOnce (root : GoalId) (goal : Goal) (budget : ℚ) (p : Progress) : Ctl σ Next := do
  let answer ← ask (env.attack goal budget)
  noteDir goal.id answer.1
  match answer.2 with
  | .error message => Prog.raise (.solverError message)
  | .ok result => judge env cfg root goal p result

def workOn (root : GoalId) (goal : Goal) (budget : ℚ) (p : Progress) : Ctl σ Next := do
  let s ← read
  if cfg.decomposeRootFirst = true ∧ goal.id = root ∧ s.decompositionsOf goal.id = [] then do
    let q ← decomposeAndRescope env cfg root goal p
    if p.counted.accepted < q.counted.accepted then pure (.again q)
    else attackOnce env cfg root goal budget q
  else attackOnce env cfg root goal budget p

def releaseLease (id : GoalId) : Ctl σ Unit := do
  let s ← read
  commit (s.release id cfg.owner)

def claimAndWork (root : GoalId) (budget : ℚ) (candidates : List Goal) (p : Progress) :
    Ctl σ Next := do
  let claimed ← claimNext env cfg candidates.length candidates
  match claimed with
  | none => pure (.stop "goal_leased_elsewhere".toList p)
  | some goal =>
    Prog.ensure (workOn env cfg root goal budget { p with iterations := p.iterations + 1 })
      (releaseLease cfg goal.id)

/-- One pass of the `while`: the checks before it, the claim, and the work. -/
def solvePass (root : GoalId) (budget : ℚ) (p : Progress) : Ctl σ Next := do
  let s ← read
  let rootGoal ← lookup (Store.noSuchGoal root) (s.goal root)
  if rootGoal.status = .proved then pure (.stop "proved".toList p)
  else if budget ≤ s.totalCost then pure (.stop "budget".toList p)
  else if actionableGoals s p.scope = [] then pure (.stop "no_actionable_goal".toList p)
  else claimAndWork env cfg root (budget - s.totalCost) (actionableGoals s p.scope) p

def solveLoop (root : GoalId) (budget : ℚ) : ℕ → Progress → Ctl σ (Text × Progress)
  | 0, p => pure ("max_iterations".toList, p)
  | n + 1, p => do
    let next ← solvePass env cfg root budget p
    match next with
    | .stop reason p => pure (reason, p)
    | .again p => solveLoop root budget n p

def solve (root : GoalId) (budget : ℚ) (maxIterations : ℕ := 1000) : Ctl σ SolveReport := do
  let _ ← recover env cfg none
  let s ← read
  let done ← solveLoop env cfg root budget maxIterations { scope := s.reachableFrom root }
  let s ← read
  let rootGoal ← lookup (Store.noSuchGoal root) (s.goal root)
  pure
    { rootProved := rootGoal.status = .proved
      stoppedReason := done.1
      iterations := done.2.iterations
      spent := s.totalCost
      attempts := done.2.attempts
      decompositionsAccepted := done.2.counted.accepted
      decompositionsRejected := done.2.counted.rejected
      cyclesRefused := done.2.counted.cycles }

def upsertGoal (identity statement : Text) : Ctl σ (Option Goal) := do
  let s ← read
  commit (s.insertGoal identity statement)
  let s ← read
  pure (s.goalByIdentity identity)

inductive Command where
  | upsertGoal (identity statement : Text)
  | recordDecomposition (goal : Goal) (sketch : Sketch)
  | solve (root : GoalId) (budget : ℚ) (maxIterations : ℕ)
  | recover (now : Option ℚ)
  | revalidateProposed

def Command.exec (c : Command) (w : World σ) : World σ :=
  match c with
  | .upsertGoal i t => (Proof.upsertGoal i t w).2
  | .recordDecomposition g k => (Proof.recordDecomposition env cfg g k w).2
  | .solve r b n => (Proof.solve env cfg r b n w).2
  | .recover now => (Proof.recover env cfg now w).2
  | .revalidateProposed => (Proof.revalidateProposed env cfg w).2

def execAll (w : World σ) (cs : List Command) : World σ :=
  cs.foldl (fun w c => c.exec env cfg w) w

def World.fresh (e : σ) : World σ := { store := Store.empty, env := e }

def World.states (w : World σ) : List Snapshot := w.toSnapshot :: w.history

end EvoHarness.Proof
