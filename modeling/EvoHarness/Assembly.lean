import EvoHarness.Store
import EvoHarness.Propose

/-! Putting the proved lemmas of a goal back together into one file. -/
namespace EvoHarness.Proof
open PyText

inductive AssemblyFault where
  | assemblyError (message : Text)
  | ambiguousRoute (goalId : GoalId) (candidates : List (DecompositionId × List Text))
  | keyError (message : Text)
  | recursionError
  deriving DecidableEq

def idText (n : ℕ) : Text := (toString n).toList

def GoalStatus.value : GoalStatus → Text
  | .opened => "open".toList
  | .proved => "proved".toList
  | .exhausted => "exhausted".toList

def DecompositionStatus.value : DecompositionStatus → Text
  | .proposed => "proposed".toList
  | .accepted => "accepted".toList
  | .rejectedByVerifier => "rejected-by-verifier".toList
  | .rejectedByReviewer => "rejected-by-reviewer".toList
  | .completed => "completed".toList

abbrev Pins := List (GoalId × DecompositionId)

def Pins.get (pins : Pins) (i : GoalId) : Option DecompositionId :=
  (pins.find? (·.1 = i)).map Prod.snd

def assemblyName (signature : Text) : Text :=
  match keywords.find? fun k => (k ++ [' ']).isPrefixOf (strip signature) with
  | some k => firstWord ((strip signature).drop (k.length + 1))
  | none => []

namespace Store

def completedOf (s : Store) (i : GoalId) : List DecompositionRow :=
  (s.decompositionsOf i).filter (·.status = .completed)

def directProof (s : Store) (i : GoalId) : Except AssemblyFault (Option Text) :=
  match (s.attemptsOf i).find? (·.outcome = .proved) with
  | none => .ok none
  | some a =>
    if a.proofText.getD [] = [] then
      .error (.assemblyError ("attempt ".toList ++ idText a.id ++
        " is proved but carries no proof text".toList))
    else .ok a.proofText

def subgoalNames (s : Store) (d : DecompositionRow) : List Text :=
  match d.sketch with
  | some k => k.subgoals.map (·.name)
  | none => d.subgoalIds.map fun i => assemblyName (((s.goal i).map (·.statement)).getD [])

/-- The decomposition a goal is assembled through, or none if it has no completed one. -/
def routeFor (s : Store) (pins : Pins) (i : GoalId) : Except AssemblyFault (Option DecompositionRow) :=
  match pins.get i with
  | some pinned =>
    match (s.completedOf i).find? (·.id = pinned) with
    | some d => .ok (some d)
    | none => .error (.assemblyError (idText pinned ++
        " is not a completed decomposition of goal ".toList ++ idText i))
  | none =>
    match s.completedOf i with
    | [] => .ok none
    | [d] => .ok (some d)
    | ds => .error (.ambiguousRoute i (ds.map fun d => (d.id, s.subgoalNames d)))

def pinMap (s : Store) : Pins → List DecompositionId → Except AssemblyFault Pins
  | pins, [] => .ok pins
  | pins, r :: routes =>
    match s.decomposition r with
    | none => .error (.keyError ("no such decomposition: ".toList ++ idText r))
    | some d =>
      if d.status ≠ .completed then
        .error (.assemblyError ("route ".toList ++ idText r ++ " is ".toList ++ d.status.value ++
          ", not completed; only a route whose subgoals are all proved can be assembled".toList))
      else
        match pins.get d.goalId with
        | none => pinMap s ((d.goalId, r) :: pins) routes
        | some already =>
          if already = r then pinMap s pins routes
          else .error (.assemblyError ("two routes named for goal ".toList ++ idText d.goalId ++
            ": ".toList ++ idText already ++ " and ".toList ++ idText r))

end Store

/-- What the recursion adds to: the header lines hoisted so far, the pinned goals met. -/
structure Hoisted where
  header : List Text
  used : List GoalId := []

structure Spliced where
  bodies : Dict Text := []
  preludes : List Text := []
  omitted : List Text := []
  hoisted : Hoisted

def hoist (header lines : List Text) : List Text :=
  lines.foldl (fun h line => if line ∈ h then h else h ++ [line]) header

/-- `bodies` or `preludes`, subgoal by subgoal; `body` assembles one that has a route. -/
def spliceAll (s : Store) (pins : Pins)
    (body : Hoisted → GoalId → Except AssemblyFault (Text × Text × Hoisted)) :
    Spliced → List (SubgoalSpec × GoalId) → Except AssemblyFault Spliced
  | acc, [] => .ok acc
  | acc, (spec, i) :: rest =>
    let splice : Except AssemblyFault Spliced :=
      match body acc.hoisted i with
      | .error e => .error e
      | .ok (text, declared, h) =>
        if declared ≠ spec.name then
          .error (.assemblyError ("subgoal ".toList ++ idText i ++ " assembles as `".toList ++
            declared ++ "` but its parent's sketch calls it `".toList ++ spec.name ++
            "`; the spliced text would not define what the parent cites".toList))
        else .ok { acc with
          preludes := acc.preludes ++ [text], omitted := spec.name :: acc.omitted, hoisted := h }
    let one : Except AssemblyFault Spliced :=
      if pins.get i = none then
        match s.directProof i with
        | .error e => .error e
        | .ok (some proof) => .ok { acc with bodies := acc.bodies.set spec.name proof }
        | .ok none => splice
      else splice
    match one with
    | .error e => .error e
    | .ok acc => spliceAll s pins body acc rest

def assembleBody (s : Store) (pins : Pins) :
    ℕ → Hoisted → GoalId → Except AssemblyFault (Text × Text × Hoisted)
  | 0, _, _ => .error .recursionError
  | n + 1, h, i =>
    match s.goal i with
    | none => .error (.keyError ("no such goal: ".toList ++ idText i))
    | some g =>
      if g.status ≠ .proved then
        .error (.assemblyError ("goal ".toList ++ idText i ++ " is ".toList ++ g.status.value ++
          ", not proved".toList))
      else
        let throughRoute : Except AssemblyFault (Text × Text × Hoisted) :=
          match s.routeFor pins i with
          | .error e => .error e
          | .ok none => .error (.assemblyError ("goal ".toList ++ idText i ++
              " is proved but has neither a proved attempt nor a completed decomposition".toList))
          | .ok (some d) =>
            match d.sketch with
            | none => .error (.assemblyError ("decomposition ".toList ++ idText d.id ++
                (" was accepted without a sketch; the graph knows which lemmas close the goal " ++
                  "but not how").toList))
            | some k =>
              let used := if pins.get i = none then h.used else i :: h.used
              let start : Spliced :=
                { hoisted := { header := hoist h.header (splitlines k.preamble), used } }
              match spliceAll s pins (assembleBody s pins n) start (k.subgoals.zip d.subgoalIds) with
              | .error e => .error e
              | .ok acc =>
                let rendered := render k acc.bodies false acc.omitted
                .ok (join "\n\n".toList (acc.preludes ++ [rendered.text]), k.parentName, acc.hoisted)
        if pins.get i = none then
          match s.directProof i with
          | .error e => .error e
          | .ok (some proof) =>
            .ok (g.statement ++ " := ".toList ++ proof ++ ['\n'], assemblyName g.statement, h)
          | .ok none => throughRoute
        else throughRoute

def assemblyDepth (s : Store) : ℕ := s.goals.length + 1

def assemble (s : Store) (i : GoalId) (routes : List DecompositionId := []) (preamble : Text := []) :
    Except AssemblyFault Text :=
  match s.pinMap [] routes with
  | .error e => .error e
  | .ok pins =>
    match assembleBody s pins (assemblyDepth s) { header := splitlines (strip preamble) } i with
    | .error e => .error e
    | .ok (text, _, h) =>
      let unused := pins.filter (·.1 ∉ h.used)
      if unused ≠ [] then
        .error (.assemblyError
          (("these routes were named but never applied -- their goals are not " ++
              "on the route being assembled: ").toList ++
            join ", ".toList (((unused.map Prod.snd).insertionSort (· ≤ ·)).map idText)))
      else if h.header ≠ [] then .ok (join ['\n'] h.header ++ "\n\n".toList ++ text)
      else .ok text

end EvoHarness.Proof
