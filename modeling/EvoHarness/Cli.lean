import EvoHarness.Scope
import EvoHarness.Propose
import EvoHarness.Certify

/-! The command line over one work directory: opening the board under a scope, the six
commands, and the exit code. What a command prints is not modelled, only what it does
and whether it returns. -/
namespace EvoHarness.Proof
open PyText Hoare

/-- What a command raises. Scope, envelope and proposal errors are `ValueError`s. -/
inductive Failure where
  | valueError (message : Text)
  | scopeMismatch (fields : List Text)
  | runtimeError (message : Text)
  | inspectError (message : Text)
  | assembly (fault : AssemblyFault)
  | controller (fault : Fault)
  | osError (message : Text)

/-- The exceptions `main` answers with exit code 1; the others leave it. -/
def Failure.caught : Failure → Bool
  | .controller (.integrityError _) => false
  | .osError _ => false
  | _ => true

structure Board where
  scope : Option GraphScope := none
  store : Store := Store.empty
  roots : List (GoalId × Text) := []
  certifications : List Certification := []

/-- The work directory: the database, the text of `preamble.lean`, and what was moved
aside, the last first. -/
structure Workspace where
  graph : Option Board := none
  header : Option Text := none
  retired : List (Option Board × Option Text) := []

structure Flags where
  identity : Option HasherName := none
  leanIdentity : Bool := false
  minimumTrust : Option AxiomPolicy := none
  adoptScope : Bool := false
  forceNewGraph : Bool := false
  replacePreamble : Bool := false

structure SolverFlags where
  level : Text := "L2".toList
  attackTimeout : ℚ := 840
  maxAttempts : ℤ := 1

inductive OutPath where
  | header
  | elsewhere

inductive CliCommand where
  | opening (statement label : Text) (preamble : Option Text)
  | status (goal : Option GoalId)
  | sketch (goal : GoalId) (proposal : Text) (preamble : Option Text) (solver : SolverFlags)
  | attack (goal : GoalId) (budget : ℚ) (maxIterations : ℕ) (preamble : Option Text)
      (allowUnacceptedRoute : Bool) (solver : SolverFlags)
  | attempt (goal : GoalId) (attempt : Option ℕ) (code : Bool)
  | assemble (goal : GoalId) (out : Option OutPath) (routes : List DecompositionId)

def CliCommand.preamble : CliCommand → Option Text
  | .opening _ _ p => p
  | .sketch _ _ p _ => p
  | .attack _ _ _ p _ _ => p
  | _ => none

/-- What stands outside: Lean, the solver, the file system beside the work directory. -/
structure Outside (σ : Type) where
  sha256 : Text → Text
  /-- `local_environment` of the project in use. -/
  environment : Text
  env : Env σ
  owner : Text
  /-- `LeanExprHasher.hash_many`, which gives every statement a key. -/
  leanExpr : List Text → σ → List Text × σ
  leanExpr_length : ∀ l e, (leanExpr l e).1.length = l.length
  loads : Text → Except Text Json
  dumps : Json → Text
  stdin : Text
  readFile : Text → Except Failure Text
  credentials : Bool
  runner : LeanRunner
  /-- What the run database of an attempt gives, if it can be read. -/
  candidates : Text → Except Text Unit

variable {σ : Type} (o : Outside σ)

namespace Workspace
variable (w : Workspace)

def readScope : Option GraphScope := w.graph.bind (·.scope)

def hasGoals : Bool := (w.graph.map fun b => !b.store.goals.isEmpty).getD false

/-- `_retire_graph`: moved aside together, never over anything. -/
def retire : Workspace :=
  if w.graph.isNone && w.header.isNone then w
  else { retired := (w.graph, w.header) :: w.retired }

end Workspace

/-- `_read_preamble`: only what is not said defers to the stored header. -/
def readPreamble (stated header : Option Text) : Text := (stated.map strip).getD (storedPreamble header)

@[simp] theorem readPreamble_some (text : Text) (header : Option Text) :
    readPreamble (some text) header = strip text := rfl

@[simp] theorem readPreamble_none (header : Option Text) :
    readPreamble none header = storedPreamble header := rfl

def Board.provedGoals (b : Board) : List Goal := b.store.goals.filter (·.status = .proved)
def Board.passing (b : Board) : List Certification := b.certifications.filter (·.ok)

def preambleNeeded : Failure := .valueError
  "--replace-preamble needs --preamble: the preamble to replace it with".toList

def resultsAtStake (proved certified : ℕ) : Failure := .valueError
  ("this graph has ".toList ++ idText proved ++ " proved goal(s) and ".toList ++ idText certified ++
    (" passing certification(s) under its current preamble; replacing the preamble would carry them " ++
     "into different premises. Keep the preamble, or start over with --force-new-graph, which moves " ++
     "this graph aside.").toList)

/-- `_replace_preamble`: whether the board is to be moved aside for the preamble. -/
def replacePreamble (stated : Option Text) (w : Workspace) : Except Failure Bool :=
  match stated with
  | none | some [] => .error preambleNeeded
  | some p =>
    match w.graph.bind fun b => b.scope.map fun stored => (b, stored) with
    | none => .ok false
    | some (b, stored) =>
      if stored.preambleSha256 = preambleSha256 o.sha256 p then .ok false
      else if b.provedGoals ≠ [] ∨ b.passing ≠ [] then
        .error (resultsAtStake b.provedGoals.length b.passing.length)
      else .ok true

def movesAside (f : Flags) (stated : Option Text) (w : Workspace) : Except Failure Bool :=
  if f.forceNewGraph then .ok true
  else if f.replacePreamble then replacePreamble o stated w
  else .ok false

def noBoard : Failure := .valueError
  ("there is no board here yet, and the first open fixes the file header for every goal on it: pass " ++
   "--preamble with the header the problem comes with (for example \"import Mathlib\"), or " ++
   "--preamble '' if it needs none").toList

def hashersContradict : Failure := .valueError
  ("--lean-identity contradicts --identity ".toList ++ HasherName.exactText.value)

def requestedHasher (f : Flags) : Except Failure (Option HasherName) :=
  if f.leanIdentity then
    if f.identity = some .exactText then
      .error hashersContradict
    else .ok (some .leanExpr)
  else .ok f.identity

def wantedScope (f : Flags) (stated : Option Text) (w : Workspace) : Except Failure GraphScope :=
  if stated.isNone && w.readScope.isNone && !w.hasGoals then .error noBoard
  else match preambleContext (readPreamble stated w.header) with
    | .error message => .error (.valueError message)
    | .ok _ =>
      match requestedHasher f with
      | .error e => .error e
      | .ok hasher =>
        .ok (GraphScope.resolve w.readScope o.environment
          (preambleSha256 o.sha256 (readPreamble stated w.header)) hasher f.minimumTrust)

def alreadyScoped : Failure := .valueError
  "--adopt-scope only applies to a graph with no recorded scope; this one has one".toList

def scopeMissing (goals : ℕ) : Failure := .valueError
  ("this graph has ".toList ++ idText goals ++
    (" goal(s) but no recorded scope: it was built before scopes existed, under premises nobody wrote " ++
     "down. If you know it was built under the settings of this command, record them with " ++
     "--adopt-scope; if it may have mixed hashers or preambles, start over with --force-new-graph.").toList)

/-- `_settle_scope` on the graph, created if it is not there. -/
def settleScope (wanted : GraphScope) (adopt : Bool) (b : Board) : Except Failure (GraphScope × Board) :=
  match b.scope with
  | some stored =>
    if adopt then .error alreadyScoped
    else if stored.diff wanted ≠ [] then .error (.scopeMismatch (stored.diff wanted))
    else .ok (stored, b)
  | none =>
    if b.store.goals ≠ [] ∧ adopt = false then .error (scopeMissing b.store.goals.length)
    else .ok (wanted, { b with scope := some wanted })

def openUnder (f : Flags) (stated : Option Text) (w : Workspace) :
    Except Failure (GraphScope × Board) × Workspace :=
  match wantedScope o f stated w with
  | .error e => (.error e, w)
  | .ok wanted =>
    match settleScope wanted f.adoptScope (w.graph.getD {}) with
    | .error e => (.error e, w)
    | .ok opened => (.ok opened, { w with graph := some opened.2 })

/-- `_store`: what it opens, and what it leaves in the work directory in any case. -/
def openStore (f : Flags) (stated : Option Text) (w : Workspace) :
    Except Failure (GraphScope × Board) × Workspace :=
  match movesAside o f stated w with
  | .error e => (.error e, w)
  | .ok aside => openUnder o f stated (if aside then w.retire else w)

structure Desk (σ : Type) where
  board : Board
  header : Option Text
  env : σ

abbrev Cli (σ : Type) (α : Type) := Prog (Desk σ) Failure α

def hashMany (scope : GraphScope) (statements : List Text) : Cli σ (List Text) :=
  match scope.identityHasher with
  | .exactText => pure (statements.map (exactText o.sha256))
  | .leanExpr => Prog.call fun d =>
    let answer := o.leanExpr statements d.env
    (answer.1, { d with env := answer.2 })

def writeStore (s : Store) : Cli σ Unit :=
  Prog.modify fun d => { d with board := { d.board with store := s } }

def addRoot (goal : GoalId) (label : Text) : Cli σ Unit :=
  Prog.modify fun d =>
    { d with board := { d.board with roots := (goal, label) :: d.board.roots.filter (·.1 ≠ goal) } }

def writePreamble (text : Text) : Cli σ Unit :=
  Prog.modify fun d => { d with header := some (writtenPreamble text) }

def goalOf (id : GoalId) : Cli σ Goal := do
  let d ← Prog.get
  match d.board.store.goal id with
  | some g => pure g
  | none => Prog.raise (.controller (Store.noSuchGoal id))

def controlled {α : Type} (m : Ctl σ α) : Cli σ α := fun d =>
  match m { store := d.board.store, env := d.env } with
  | (.ok a, w) => (.ok a, { d with board := { d.board with store := w.store }, env := w.env })
  | (.error e, w) =>
    (.error (.controller e), { d with board := { d.board with store := w.store }, env := w.env })

def cmdOpen (scope : GraphScope) (statement label : Text) (preamble : Option Text) : Cli σ Unit := do
  let identities ← hashMany o scope [statement]
  let identity := identities.headD []
  let d ← Prog.get
  writeStore (d.board.store.insertGoal identity statement)
  let goal := (d.board.store.insertGoal identity statement).idOf identity
  addRoot goal (if label = [] then declarationName statement else label)
  match preamble with
  | some text => writePreamble text
  | none => pure ()

def cmdStatus : Option GoalId → Cli σ Unit
  | none => pure ()
  | some goal => do
    let _ ← goalOf goal
    pure ()

def readProposal (proposal : Text) : Except Failure Json :=
  let raw : Except Failure Text := match proposal with
    | ['-'] => .ok o.stdin
    | '@' :: path => o.readFile path
    | _ => .ok proposal
  match raw with
  | .error e => .error e
  | .ok text =>
    match o.loads text with
    | .ok payload => .ok payload
    | .error message => .error (.valueError ("--proposal is not json: ".toList ++ message))

def ofExcept {α : Type} : Except Failure α → Cli σ α
  | .ok a => pure a
  | .error e => Prog.raise e

def controllerEnv (flags : SolverFlags) : Env σ :=
  { o.env with
    propose := fun _ e => (none, e)
    select := selectFirstOpen
    select_mem := fun _ _ h => List.mem_of_head? h
    level := flags.level }

/-- A controller built only to validate: its solver, which no part of recording a
decomposition calls, has a level of its own. -/
def validatingEnv : Env σ := controllerEnv o { level := "none".toList }

def leaseMargin : ℚ := 300

def controllerConfig (flags : SolverFlags) : Config where
  owner := o.owner
  maxCapabilityAttempts := flags.maxAttempts
  leaseTtl := flags.attackTimeout + leaseMargin

def Sketch.withKeys (k : Sketch) (identities : List Text) : Sketch :=
  { k with subgoals := (k.subgoals.zip identities).map fun p => { p.1 with identity := p.2 } }

def cmdSketch (scope : GraphScope) (goal : GoalId) (proposal : Text) (preamble : Option Text)
    (flags : SolverFlags) : Cli σ Unit := do
  let g ← goalOf goal
  let payload ← ofExcept (readProposal o proposal)
  let d ← Prog.get
  match parseProposal o.loads (o.dumps payload) g (declarationName g.statement)
      (readPreamble preamble d.header) with
  | .error _ => pure ()
  | .ok k => do
    let identities ← hashMany o scope (k.subgoals.map (·.signature))
    let _ ← controlled (recordDecomposition (validatingEnv o) (controllerConfig o flags) g
      (k.withKeys identities))
    pure ()

/-- `_route_note`: whether every route that uses the goal is still unaccepted. -/
def routesUnaccepted (s : Store) (goal : GoalId) : Bool :=
  let routes := s.decompositions.filter (goal ∈ ·.subgoalIds)
  !routes.isEmpty && routes.all (·.status ≠ .accepted)

def attackGoal (goal : GoalId) (budget : ℚ) (maxIterations : ℕ) (allow : Bool)
    (flags : SolverFlags) : Ctl σ Unit := do
  let env := controllerEnv o flags
  let _ ← revalidateProposed env (controllerConfig o flags)
  let s ← read
  if routesUnaccepted s goal && !allow then pure ()
  else do
    let _ ← solve env (controllerConfig o flags) goal budget maxIterations
    pure ()

def cmdAttack (goal : GoalId) (budget : ℚ) (maxIterations : ℕ) (allow : Bool)
    (flags : SolverFlags) : Cli σ Unit := do
  let _ ← goalOf goal
  if o.credentials then controlled (attackGoal o goal budget maxIterations allow flags)
  else Prog.raise (.runtimeError
    "EVOHARNESS_API_BASE and EVOHARNESS_API_KEY must be set to attack a goal".toList)

def chosenAttempt (attempts : List Attempt) : Option ℕ → Option Attempt
  | none => attempts.getLast?
  | some id => attempts.find? (·.id = id)

def attemptView (s : Store) (goal : GoalId) (attempt : Option ℕ) : Except Failure Attempt :=
  if s.attemptsOf goal = [] then
    .error (.inspectError ("goal ".toList ++ idText goal ++ " has no recorded attempts".toList))
  else match chosenAttempt (s.attemptsOf goal) attempt with
    | none => .error (.inspectError
        (idText (attempt.getD 0) ++ " is not an attempt on goal ".toList ++ idText goal))
    | some chosen =>
      match chosen.runDir with
      | none => .ok chosen
      | some dir =>
        match o.candidates dir with
        | .ok () => .ok chosen
        | .error message => .error (.inspectError message)

def cmdAttempt (goal : GoalId) (attempt : Option ℕ) : Cli σ Unit := do
  let d ← Prog.get
  let _ ← ofExcept (attemptView o d.board.store goal attempt)
  pure ()

def cmdAssemble (scope : GraphScope) (goal : GoalId) (out : Option OutPath)
    (routes : List DecompositionId) : Cli σ Unit := do
  let g ← goalOf goal
  if g.status ≠ .proved then pure ()
  else do
    let d ← Prog.get
    match certify o.sha256 d.board.store goal o.runner routes scope.policy (readPreamble none d.header) with
    | .error (.ambiguousRoute _ _) => pure ()
    | .error e => Prog.raise (.assembly e)
    | .ok (result, cert) => do
      Prog.modify fun d =>
        { d with board := { d.board with certifications := d.board.certifications ++ [cert] } }
      match out with
      | some .header =>
        if result.ok then Prog.modify fun d => { d with header := some result.text } else pure ()
      | _ => pure ()

def body (scope : GraphScope) : CliCommand → Cli σ Unit
  | .opening statement label preamble => cmdOpen o scope (strip statement) label preamble
  | .status goal => cmdStatus goal
  | .sketch goal proposal preamble flags => cmdSketch o scope goal proposal preamble flags
  | .attack goal budget n _ allow flags => cmdAttack o goal budget n allow flags
  | .attempt goal id _ => cmdAttempt o goal id
  | .assemble goal out routes => cmdAssemble o scope goal out routes

def CliCommand.unreadable : CliCommand → Option Failure
  | .opening statement _ _ =>
    if strip statement = [] then some (.valueError "--statement is empty".toList)
    else if contains ":=".toList (strip statement) then some (.valueError
      "--statement is a declaration SIGNATURE: everything up to but not including `:=`".toList)
    else none
  | _ => none

structure Session (σ : Type) where
  work : Workspace
  env : σ

def invoke (f : Flags) (c : CliCommand) (s : Session σ) : Except Failure Unit × Session σ :=
  match c.unreadable with
  | some e => (.error e, s)
  | none =>
    match openStore o f c.preamble s.work with
    | (.error e, w) => (.error e, { s with work := w })
    | (.ok opened, w) =>
      match body o opened.1 c { board := opened.2, header := w.header, env := s.env } with
      | (r, d) => (r, { work := { w with graph := some d.board, header := d.header }, env := d.env })

/-- The exit code, none if the exception leaves `main`. -/
def exitCode : Except Failure Unit → Option ℕ
  | .ok () => some 0
  | .error e => if e.caught then some 1 else none

def main (f : Flags) (c : CliCommand) (s : Session σ) : Option ℕ × Session σ :=
  (exitCode (invoke o f c s).1, (invoke o f c s).2)

end EvoHarness.Proof
