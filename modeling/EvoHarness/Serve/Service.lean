import EvoHarness.Serve.Grading

/-! The evaluation service: its tables, the requests of any number of threads, and its workers. What a `grade_fn` is
given, and the work directories, are left out. -/
namespace EvoHarness.Serve
open PyText Json Evaluation

inductive Status where
  | queued
  | running
  | done
  | infraError
deriving DecidableEq

structure Job where
  jobId : Text
  status : Status := .queued
  report : Option WireReport := none
  error : Option Text := none
  workdir : Option Text := none

/-- Where the work on a job is: before the call of `pool.submit`, refused by it, in its queue, in the `grade_fn`, after the
verdict, or at its end. -/
inductive Phase where
  | admitted
  | refused
  | waiting
  | grading
  | cleaning
  | finished
deriving DecidableEq

structure Entry where
  job : Job
  payload : List (PyValue × PyValue)
  phase : Phase := .admitted

inductive SubmitFault where
  | typeError
  | valueError (message : Text)
  | runtimeError
  | keyError

inductive Submission where
  | returned (jobId : Text)
  | raised (fault : SubmitFault) (entered : Bool)

/-- `_jobs` with the work items, `_by_key`, `_counter`, and the calls of `submit` that ended. -/
structure Service where
  entries : List Entry := []
  byKey : List (PyValue × Text) := []
  counter : ℕ := 0
  submissions : List Submission := []

variable (py : Builtins)

def contains (k : Text) : PyValue → Except SubmitFault Bool
  | .dict items => .ok (hasMember items k)
  | .list xs | .tuple xs => .ok (xs.any (isString k))
  | .str s => .ok (py.within s k)
  | _ => .error .typeError

def requiredSubmitKeys : List Text :=
  ["protocol_version".toList, "candidate_id".toList, "code".toList, "idempotency_key".toList]

def missingKeys (payload : PyValue) : List Text → Except SubmitFault (List Text)
  | [] => .ok []
  | k :: ks => do
    let found ← contains py k payload
    let missing ← missingKeys payload ks
    return if found then missing else k :: missing

mutual

def hashable : PyValue → Bool
  | .list _ | .dict _ => false
  | .tuple xs => hashableItems xs
  | _ => true

def hashableItems : List PyValue → Bool
  | [] => true
  | x :: xs => hashable x && hashableItems xs

end

structure Request where
  members : List (PyValue × PyValue)
  hashable : hashable (member members "idempotency_key".toList) = true

def Request.key (r : Request) : PyValue := member r.members "idempotency_key".toList

def requestOf : PyValue → Except SubmitFault Request
  | .dict members =>
    if equalsOne (member members "protocol_version".toList) = false then
      .error (.valueError ("Unsupported protocol version: ".toList ++ py.str (member members "protocol_version".toList)))
    else if h : hashable (member members "idempotency_key".toList) = true then .ok ⟨members, h⟩
    else .error .typeError
  | _ => .error .typeError

def admission (payload : PyValue) : Except SubmitFault Request := do
  let missing ← missingKeys py payload requiredSubmitKeys
  if missing ≠ [] then
    .error (.valueError ("Missing required keys: ".toList ++ py.repr (.list (missing.map fun k => .str (some k)))))
  else requestOf py payload

def jobName (n : ℕ) : Text :=
  "job_".toList ++ List.replicate (4 - (Nat.toDigits 10 n).length) '0' ++ Nat.toDigits 10 n

def lookup (key : PyValue) (byKey : List (PyValue × Text)) : Option Text :=
  (byKey.find? fun p => py.same key p.1).map (·.2)

def register (key : PyValue) (jobId : Text) : List (PyValue × Text) → List (PyValue × Text)
  | [] => [(key, jobId)]
  | p :: rest => if py.same key p.1 then (p.1, jobId) :: rest else p :: register key jobId rest

namespace Service

def find (s : Service) (jobId : Text) : Option Entry := s.entries.find? (·.job.jobId = jobId)

def inPhase (s : Service) (jobId : Text) (phase : Phase) : Option Entry :=
  (s.find jobId).filter fun e => e.phase = phase

def change (s : Service) (jobId : Text) (f : Entry → Entry) : Service :=
  { s with entries := s.entries.map fun e => if e.job.jobId = jobId then f e else e }

def report (s : Service) (x : Submission) : Service := { s with submissions := s.submissions ++ [x] }

def enter (s : Service) (r : Request) : Service :=
  { s with
    counter := s.counter + 1
    entries := s.entries ++ [{ job := { jobId := jobName (s.counter + 1) }, payload := r.members }]
    byKey := register py r.key (jobName (s.counter + 1)) s.byKey }

def accept (s : Service) (r : Request) : Service :=
  match lookup py r.key s.byKey with
  | none => s.enter py r
  | some jobId =>
    match s.find jobId with
    | none => s.report (.raised .keyError false)
    | some prior => if prior.job.status ≠ .infraError then s.report (.returned prior.job.jobId) else s.enter py r

end Service

/-- What `pool.submit` does: it raises where the pool is shut down, and also where it has taken the work and can start no
thread for it. -/
inductive PoolAnswer where
  | taken
  | refused
  | takenAndRaised

/-- What a `grade_fn` does. An `InfraError` may have no text, where its `str` raises; `exits` is an exception that is no
`Exception`. -/
inductive Graded where
  | returned (raw : GradeValue)
  | infraError (message : Option Text)
  | raised (trace : Text)
  | exits

inductive Event where
  | submit (payload : PyValue)
  | hand (jobId : Text) (answer : PoolAnswer)
  | start (jobId : Text) (workdir : Except Text Text)
  | grade (jobId : Text) (graded : Graded) (trace : Text) (elapsed : PyFloat)
  | cleanup (jobId : Text)

def failureGrade (trace : Text) : GradeValue :=
  .value (.dict [(.str (some "fitness".toList), .float (.finite zero)), (.str (some "passed".toList), .bool false),
    (.str (some "fault".toList), .str (some "uncaught exception in grade_fn".toList)),
    (.str (some "stderr_log".toList), .str (some trace)), (.str (some "stage_reached".toList), .int 0)])

def hintsUsable (payload : List (PyValue × PyValue)) : Bool :=
  match member payload "hints".toList with
  | .dict _ => true
  | x => !truthy x

/-- How the `try` statement around the `grade_fn` ends: with a report, with an `InfraError`, with one whose text raises
once the status is set, or with an exception that leaves the worker. -/
inductive Verdict where
  | report (r : WireReport)
  | infra (message : Text)
  | unsaid
  | escapes

def failed (trace : Text) : Verdict :=
  match coerceGrade py (failureGrade trace) with
  | .ok r => .report r
  | .error _ => .escapes

def verdictOf (payload : List (PyValue × PyValue)) (graded : Graded) (trace : Text) : Verdict :=
  if hintsUsable payload = false then failed py trace
  else
    match graded with
    | .returned raw =>
      match coerceGrade py raw with
      | .ok r => .report r
      | .error _ => failed py trace
    | .infraError (some message) => .infra ("grade_fn dependency failed: ".toList ++ message)
    | .infraError none => .unsaid
    | .raised trace => failed py trace
    | .exits => .escapes

def timed (elapsed : PyFloat) (r : WireReport) : WireReport :=
  if truthy (.float r.executionTime) then r else { r with executionTime := elapsed }

namespace Entry

def start (workdir : Except Text Text) (e : Entry) : Entry :=
  match workdir with
  | .ok path => { e with job := { e.job with workdir := some path, status := .running }, phase := .grading }
  | .error message =>
    { e with
      job := { e.job with status := .infraError, error := some ("workdir setup failed: ".toList ++ message) }
      phase := .finished }

def grade (verdict : Verdict) (elapsed : PyFloat) (e : Entry) : Entry :=
  match verdict with
  | .report r => { e with job := { e.job with report := some (timed elapsed r), status := .done }, phase := .cleaning }
  | .infra message =>
    { e with job := { e.job with status := .infraError, error := some message }, phase := .finished }
  | .unsaid => { e with job := { e.job with status := .infraError }, phase := .finished }
  | .escapes => { e with phase := .finished }

end Entry

/-- How a call of `pool.submit` ends the call of `submit`. -/
def handed (s : Service) (jobId : Text) : PoolAnswer → Service
  | .taken => (s.change jobId fun e => { e with phase := .waiting }).report (.returned jobId)
  | .refused => (s.change jobId fun e => { e with phase := .refused }).report (.raised .runtimeError true)
  | .takenAndRaised => (s.change jobId fun e => { e with phase := .waiting }).report (.raised .runtimeError true)

def step (s : Service) : Event → Option Service
  | .submit payload =>
    match admission py payload with
    | .error fault => some (s.report (.raised fault false))
    | .ok r => some (s.accept py r)
  | .hand jobId answer => (s.inPhase jobId .admitted).map fun _ => handed s jobId answer
  | .start jobId workdir => (s.inPhase jobId .waiting).map fun _ => s.change jobId (Entry.start workdir)
  | .grade jobId graded trace elapsed =>
    (s.inPhase jobId .grading).map fun e =>
      s.change jobId (Entry.grade (verdictOf py e.payload graded trace) elapsed)
  | .cleanup jobId => (s.inPhase jobId .cleaning).map fun _ => s.change jobId fun e => { e with phase := .finished }

def poll (s : Service) (jobId : Text) : Option (Status × Option Text × Option WireReport) :=
  (s.find jobId).map fun e => (e.job.status, e.job.error, e.job.report)

def samplePayload : PyValue :=
  .dict [(.str (some "protocol_version".toList), .int 1), (.str (some "candidate_id".toList), .str (some "c1".toList)),
    (.str (some "code".toList), .str (some "x = 1".toList)),
    (.str (some "idempotency_key".toList), .str (some "k1".toList))]

def sampleBuiltins : Builtins where
  formats :=
    { float := some
      hash := fun t => 'h' :: t
      float_float := float_some
      hash_real := marked_real
      float_zero := some_zero }
  str _ := []
  repr _ := []
  reprSet _ := []
  same | .str s, .str t => s = t | _, _ => false
  within _ _ := false
  same_symm x y h := by
    cases x <;> cases y <;> simp_all
  same_trans x y z h h' := by
    cases x <;> cases y <;> cases z <;> simp_all

end EvoHarness.Serve
