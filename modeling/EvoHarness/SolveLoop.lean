import EvoHarness.LeaseFrames
import EvoHarness.Library.Runs

/-! Controllers running `solve` on one graph at once. Every statement against the database,
and every call out to the solver, the decomposition source or the sketch check, is a step
of its own, and the steps of the others may come between. -/
namespace EvoHarness.Proof.SolveLoop
open PyText Runs

structure Party extends Config where
  level : Text := []

structure Loop where
  root : GoalId
  budget : ℚ
  maxIterations : ℕ
  iterations : ℕ := 0
  consecutiveInfra : ℕ := 0
  scope : List GoalId := []

/-- A goal this controller has claimed. The two stores are the graph as it was when the
candidates were read and when the claim succeeded. -/
structure Job where
  goal : GoalId
  readAt : Store
  claimedAt : Store

/-- How far the `try` block of a claimed goal has come. `first` tells the decomposition
before any attack from the one after a failed attack. -/
inductive Stage where
  | claimed
  | asking (first : Bool)
  | checking (first : Bool) (sketch : Sketch)
  | writing (first : Bool) (sketch : Sketch)
  | awaiting (first : Bool) (id : DecompositionId)
  | ruled (first ok : Bool)
  | rescoping (first ok : Bool)
  | ready
  | attacking
  | returned (result : AttemptResult)
  | recorded (result : AttemptResult)
  | closing (again : Bool)

inductive Phase where
  | idle
  | revalidating (rest : List DecompositionRow)
  | ruling (i : GoalId) (rest : List DecompositionRow)
  | recording (g : Goal) (rest : List Goal)
  | clearing (g : Goal) (rest : List Goal)
  | propagating (g : Goal) (rest : List Goal)
  | recovered
  | between (l : Loop)
  | reading (l : Loop)
  | choosing (l : Loop) (readAt : Store) (candidates : List Goal)
  | working (l : Loop) (j : Job) (stage : Stage)
  | dead

/-- One step, with what comes from outside: the clock, the selection, and the answers of the
solver, the decomposition source and the sketch check. -/
inductive Action where
  | recover
  | revalidate (verdict : Option Validation)
  | scan (now : ℚ)
  | record
  | clear
  | propagate
  | finish
  | enter (root : GoalId) (budget : ℚ) (maxIterations : ℕ)
  | check
  | read
  | claim (choice : Goal) (now : ℚ)
  | giveUp
  | decide
  | propose (sketch : Option Sketch)
  | checkAcyclic
  | write
  | judge (verdict : Option Validation)
  | rescope
  | attack
  | noteDir (dir : Text)
  | answer (result : Except Text AttemptResult)
  | release
  | die

def Phase.nextStale : List Goal → Phase
  | [] => .recovered
  | g :: rest => .recording g rest

def afterAttempt (me : Party) (l : Loop) (result : AttemptResult) : Loop × Stage :=
  if result.outcome ∈ noVerdictOutcomes then
    if result.outcome = .infraFailed then
      ({ l with consecutiveInfra := l.consecutiveInfra + 1 },
        .closing (decide (((l.consecutiveInfra + 1 : ℕ) : ℤ) < me.maxConsecutiveInfra)))
    else (l, .closing (decide (result.outcome ≠ .budgetExhausted)))
  else if result.outcome = .proved then ({ l with consecutiveInfra := 0 }, .closing true)
  else ({ l with consecutiveInfra := 0 }, .asking false)

/-- After the decomposition source and what followed: go on to the attack, or be done. -/
def afterDecomposition (first ok : Bool) : Stage :=
  if first = true ∧ ok = false then .ready else .closing true

def subgoalsOf (k : Sketch) : List (Text × Text) := k.subgoals.map fun p => (p.identity, p.signature)

def act (me : Party) (s : Store) (ph : Phase) : Action → Option (Store × Phase)
  | .recover =>
    match ph with
    | .idle => some (s, .revalidating s.proposedDecompositions)
    | _ => none
  | .revalidate verdict =>
    match ph with
    | .revalidating (d :: rest) =>
      match d.sketch, s.goal d.goalId, verdict with
      | none, _, _ => some (s.setDecompositionStatus d.id .rejectedByVerifier
          "the decomposition was recorded without a sketch".toList, .revalidating rest)
      | some _, none, _ => some (s, .idle)
      | some _, some _, none => some (s, .revalidating rest)
      | some _, some g, some v =>
        some (s.setDecompositionStatus d.id (verdictStatus v) v.reason, .ruling g.id rest)
    | _ => none
  | .scan now =>
    match ph with
    | .revalidating [] => some (s, .nextStale (s.staleLeases now))
    | _ => none
  | .record =>
    match ph with
    | .recording g rest =>
      match s.recordAttempt
        ((AttemptResult.interrupted g.leaseRunDir (interruptedNote g)).toAttempt g.id) with
      | .ok s' => some (s', .clearing g rest)
      | .error _ => some (s, .idle)
    | .working l j (.returned result) =>
      match s.recordAttempt (result.toAttempt j.goal) with
      | .ok s' => some (s', .working l j (.recorded result))
      | .error _ => some (s, .working l j (.closing false))
    | _ => none
  | .clear =>
    match ph with
    | .clearing g rest => some (s.forceRelease g.id, .propagating g rest)
    | _ => none
  | .propagate =>
    match ph with
    | .ruling i rest => some (s.propagated me.maxCapabilityAttempts me.level i, .revalidating rest)
    | .propagating g rest => some (s.propagated me.maxCapabilityAttempts me.level g.id, .nextStale rest)
    | .working l j (.ruled first ok) =>
      some (s.propagated me.maxCapabilityAttempts me.level j.goal, .working l j (.rescoping first ok))
    | .working l j (.recorded result) =>
      some (s.propagated me.maxCapabilityAttempts me.level j.goal,
        .working (afterAttempt me l result).1 j (afterAttempt me l result).2)
    | _ => none
  | .finish =>
    match ph with
    | .recovered => some (s, .idle)
    | _ => none
  | .enter root budget maxIterations =>
    match ph with
    | .recovered => some (s, .between { root, budget, maxIterations, scope := s.reachableFrom root })
    | _ => none
  | .check =>
    match ph with
    | .between l =>
      if l.iterations < l.maxIterations then
        match s.goal l.root with
        | none => some (s, .idle)
        | some g =>
          if g.status = .proved ∨ l.budget ≤ s.totalCost then some (s, .idle) else some (s, .reading l)
      else some (s, .idle)
    | _ => none
  | .read =>
    match ph with
    | .reading l =>
      if actionableGoals s l.scope = [] then some (s, .idle)
      else some (s, .choosing l s (actionableGoals s l.scope))
    | _ => none
  | .claim choice now =>
    match ph with
    | .choosing l seen candidates =>
      if choice ∈ candidates then
        match s.claim choice.id me.owner me.leaseTtl now with
        | (s', true) =>
          some (s', .working { l with iterations := l.iterations + 1 } ⟨choice.id, seen, s⟩ .claimed)
        | (s', false) => some (s', .choosing l seen (candidates.filter (·.id ≠ choice.id)))
      else none
    | _ => none
  | .giveUp =>
    match ph with
    | .choosing _ _ _ => some (s, .idle)
    | _ => none
  | .decide =>
    match ph with
    | .working l j .claimed =>
      if me.decomposeRootFirst = true ∧ j.goal = l.root ∧ s.decompositionsOf j.goal = [] then
        some (s, .working l j (.asking true))
      else some (s, .working l j .ready)
    | _ => none
  | .propose sketch =>
    match ph with
    | .working l j (.asking first) =>
      match sketch with
      | none => some (s, .working l j (.rescoping first false))
      | some k => some (s, .working l j (.checking first k))
    | _ => none
  | .checkAcyclic =>
    match ph with
    | .working l j (.checking first k) =>
      match s.checkDecomposition j.goal (subgoalsOf k) with
      | .ok () => some (s, .working l j (.writing first k))
      | .error (.cycleError _) => some (s, .working l j (.rescoping first false))
      | .error _ => some (s, .working l j (.closing false))
    | _ => none
  | .write =>
    match ph with
    | .working l j (.writing first k) =>
      match s.writeDecomposition j.goal (subgoalsOf k) (some k) with
      | .ok s' => some (s', .working l j (.awaiting first s.decompositions.length))
      | .error _ => some (s, .working l j (.closing false))
    | _ => none
  | .judge verdict =>
    match ph with
    | .working l j (.awaiting first id) =>
      match verdict with
      | none => some (s, .working l j (.rescoping first false))
      | some v =>
        some (s.setDecompositionStatus id (verdictStatus v) v.reason, .working l j (.ruled first v.ok))
    | _ => none
  | .rescope =>
    match ph with
    | .working l j (.rescoping first ok) =>
      some (s, .working { l with scope := s.reachableFrom l.root } j (afterDecomposition first ok))
    | _ => none
  | .attack =>
    match ph with
    | .working l j .ready => some (s, .working l j .attacking)
    | _ => none
  | .noteDir dir =>
    match ph with
    | .working l j .attacking => some (s.noteAttemptDir j.goal dir, .working l j .attacking)
    | _ => none
  | .answer result =>
    match ph with
    | .working l j .attacking =>
      match result with
      | .ok r => some (s, .working l j (.returned r))
      | .error _ => some (s, .working l j (.closing false))
    | _ => none
  | .release =>
    match ph with
    | .working l j (.closing again) =>
      some (s.release j.goal me.owner, if again = true then .between l else .idle)
    | _ => none
  | .die => some (s, .dead)

def callOf : Phase → Action → Option Job
  | .working _ j (.asking _), .propose _ => some j
  | .working _ j .ready, .attack => some j
  | _, _ => none

/-- `calls` are the goals the solver was set on and the source was asked about. -/
structure Net (ω : Type) where
  store : Store
  phase : ω → Phase
  calls : List Job := []

variable {ω : Type} [DecidableEq ω]

def step (party : ω → Party) (net : Net ω) (l : ω × Action) : Option (Net ω) :=
  (act (party l.1) net.store (net.phase l.1) l.2).map fun r =>
    { store := r.1
      phase := Function.update net.phase l.1 r.2
      calls := (callOf (net.phase l.1) l.2).toList ++ net.calls }

variable {party : ω → Party}

theorem step_cases {net t : Net ω} {l : ω × Action} (h : step party net l = some t) :
    ∃ s ph, act (party l.1) net.store (net.phase l.1) l.2 = some (s, ph) ∧ t.store = s ∧
      t.phase = Function.update net.phase l.1 ph ∧
      t.calls = (callOf (net.phase l.1) l.2).toList ++ net.calls := by
  obtain ⟨r, hr, ht⟩ := Option.map_eq_some_iff.mp h
  exact ⟨r.1, r.2, hr, ht ▸ rfl, ht ▸ rfl, ht ▸ rfl⟩

def start (s : Store) : Net ω := { store := s, phase := fun _ => .idle }

def oneGoal : Store := Store.empty.insertGoal "A".toList "theorem a : A".toList

def theGoal : Goal := { id := 0, identity := "A".toList, statement := "theorem a : A".toList }

def workerA : Fin 2 := 0
def workerB : Fin 2 := 1

def twoParties (w : Fin 2) : Party := { owner := [['a'], ['b']].getD w [] }

end EvoHarness.Proof.SolveLoop
